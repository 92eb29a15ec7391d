import CodexPilot.Composer.Atoms

/-!
# Words, lines and edits

The ends of words and lines around the cursor are character boundaries, on the side of the cursor
that they are looked for on.  An edit cuts a sequence of atoms into three and replaces the middle by
characters.  The atoms in front of it and behind it stay as they are; the text area moves the ranges
of those behind.
-/

namespace CodexPilot.Composer

open RustStd

section Indices

variable {text : Text} {offset index pos other : ℕ} {c : Char}

/-- A character stands between two boundaries. -/
theorem mem_charIndicesFrom (member : (index, c) ∈ charIndicesFrom offset text) :
    ∃ before after, text = before ++ c :: after ∧ index = offset + len before := by
  induction text generalizing offset with
  | nil => cases member
  | cons first text ih =>
      obtain same | later := List.mem_cons.mp member
      · cases same
        exact ⟨[], text, rfl, rfl⟩
      · obtain ⟨before, after, rfl, rfl⟩ := ih later
        refine ⟨first :: before, after, rfl, ?_⟩
        rw [len, len, Offsets.extent_cons, Nat.add_assoc]

theorem isCharBoundary_of_mem (member : (index, c) ∈ charIndices text) :
    isCharBoundary text index = true ∧ isCharBoundary text (index + c.utf8Size) = true := by
  obtain ⟨before, after, rfl, rfl⟩ := mem_charIndicesFrom member
  rw [Nat.zero_add]
  refine ⟨isCharBoundary_iff.mpr (Offsets.isBoundary_extent before _),
    isCharBoundary_iff.mpr ⟨before ++ [c], after, by simp, ?_⟩⟩
  simp [len]

theorem isCharBoundary_of_upTo (boundary : isCharBoundary (upTo text pos) other = true) :
    isCharBoundary text other = true ∧ other ≤ pos := by
  have within := le_len_of_isCharBoundary boundary
  obtain ⟨before, after, whole, rfl⟩ := isCharBoundary_iff.mp boundary
  refine ⟨isCharBoundary_iff.mpr ⟨before, after ++ onward text pos, ?_, rfl⟩, ?_⟩
  · rw [← List.append_assoc, ← whole]
    exact (Offsets.front_append_back text pos).symm
  · exact within.trans (Offsets.extent_front_le text pos)

theorem isCharBoundary_of_onward (stands : isCharBoundary text pos = true)
    (boundary : isCharBoundary (onward text pos) other = true) :
    isCharBoundary text (pos + other) = true := by
  obtain ⟨before, after, rfl, rfl⟩ := isCharBoundary_iff.mp stands
  rw [onward, Offsets.back_append Char.utf8Size_pos, isCharBoundary_iff] at boundary
  exact isCharBoundary_iff.mpr ((Offsets.isBoundary_append_iff Char.utf8Size_pos).mpr boundary)

/-- What holds of the ends of all characters holds of the start of the word. -/
theorem wordStartFrom_of_forall (holds : ℕ → Prop) (isSeparator : Bool) {start : ℕ}
    {indices : List (ℕ × Char)} (first : holds start)
    (ends : ∀ entry ∈ indices, holds entry.1 ∧ holds (entry.1 + entry.2.utf8Size)) :
    holds (TextArea.wordStartFrom isSeparator start indices) := by
  induction indices generalizing start with
  | nil => exact first
  | cons entry indices ih =>
      obtain ⟨own, rest⟩ := List.forall_mem_cons.mp ends
      obtain ⟨index, c⟩ := entry
      rw [TextArea.wordStartFrom]
      split
      · exact own.2
      · exact ih own.1 rest

end Indices

section Cursor

variable {area : TextArea} {atoms : List Atom}

theorem beginningOfPreviousWord_spec (shown : Shows area.text area.elements atoms) :
    isCharBoundary area.text area.beginningOfPreviousWord = true ∧
      area.beginningOfPreviousWord ≤ area.cursorPos := by
  rw [TextArea.beginningOfPreviousWord]
  dsimp only
  split
  case h_1 => exact ⟨isCharBoundary_iff.mpr (Offsets.isBoundary_zero _), Nat.zero_le _⟩
  case h_2 index c found =>
    have member := List.mem_reverse.mp (List.mem_of_find?_eq_some found)
    have start := isCharBoundary_of_upTo (isCharBoundary_of_mem member).1
    have ends : ∀ entry ∈ (charIndices (upTo (upTo area.text area.cursorPos) index)).reverse,
        (isCharBoundary area.text entry.1 = true ∧ entry.1 ≤ area.cursorPos) ∧
          isCharBoundary area.text (entry.1 + entry.2.utf8Size) = true ∧
            entry.1 + entry.2.utf8Size ≤ area.cursorPos := by
      intro entry inFront
      obtain ⟨first, last⟩ := isCharBoundary_of_mem (List.mem_reverse.mp inFront)
      exact ⟨isCharBoundary_of_upTo (isCharBoundary_of_upTo first).1,
        isCharBoundary_of_upTo (isCharBoundary_of_upTo last).1⟩
    obtain ⟨boundary, le⟩ := wordStartFrom_of_forall
      (fun pos => isCharBoundary area.text pos = true ∧ pos ≤ area.cursorPos)
      (isWordSeparator c) start ends
    exact ⟨isCharBoundary_of_atoms shown (isBoundary_adjustPosOutOfElements shown true boundary),
      adjustPosOutOfElements_le.trans le⟩

theorem endOfNextWord_spec (shown : Shows area.text area.elements atoms)
    (stands : isCharBoundary area.text area.cursorPos = true) :
    isCharBoundary area.text area.endOfNextWord = true ∧
      area.cursorPos ≤ area.endOfNextWord := by
  have within := le_len_of_isCharBoundary stands
  have atEnd : isCharBoundary area.text (len area.text) = true :=
    isCharBoundary_iff.mpr (Offsets.isBoundary_end _)
  rw [TextArea.endOfNextWord]
  split
  case h_1 => exact ⟨atEnd, within⟩
  case h_2 offset c found =>
    have member := List.mem_of_find?_eq_some found
    have wordStart := isCharBoundary_of_onward stands (isCharBoundary_of_mem member).1
    have behind : area.cursorPos ≤ area.cursorPos + offset := Nat.le_add_right _ _
    dsimp only
    split
    case h_1 => exact ⟨wordStart, behind⟩
    case h_2 index first rest indices =>
      split
      case h_1 further c' reached =>
        have member : (further, c') ∈ charIndices (onward area.text (area.cursorPos + offset)) :=
          indices ▸ List.mem_cons_of_mem _ (List.mem_of_find?_eq_some reached)
        have boundary := isCharBoundary_of_onward wordStart (isCharBoundary_of_mem member).1
        exact ⟨isCharBoundary_of_atoms shown
            (isBoundary_adjustPosOutOfElements shown false boundary),
          (behind.trans (Nat.le_add_right _ _)).trans le_adjustPosOutOfElements⟩
      case h_2 =>
        exact ⟨isCharBoundary_of_atoms shown (isBoundary_adjustPosOutOfElements shown false atEnd),
          within.trans le_adjustPosOutOfElements⟩

theorem endOfCurrentLine_spec (stands : isCharBoundary area.text area.cursorPos = true) :
    isCharBoundary area.text area.endOfCurrentLine = true ∧
      area.cursorPos ≤ area.endOfCurrentLine ∧
      (area.endOfCurrentLine < len area.text →
        isCharBoundary area.text (area.endOfCurrentLine + 1) = true) := by
  have within := le_len_of_isCharBoundary stands
  rw [TextArea.endOfCurrentLine]
  split
  case h_1 index c found =>
    have newline : c = '\n' := by simpa using List.find?_some found
    obtain ⟨first, last⟩ := isCharBoundary_of_mem (List.mem_of_find?_eq_some found)
    have boundary := isCharBoundary_of_onward stands first
    have further := isCharBoundary_of_onward stands last
    rw [newline] at further
    rw [Nat.add_comm index]
    exact ⟨boundary, Nat.le_add_right _ _, fun _ => further⟩
  case h_2 =>
    exact ⟨isCharBoundary_iff.mpr (Offsets.isBoundary_end _), within,
      fun less => absurd less (Nat.lt_irrefl _)⟩

theorem beginningOfCurrentLine_spec (area : TextArea) :
    isCharBoundary area.text area.beginningOfCurrentLine = true ∧
      area.beginningOfCurrentLine ≤ area.cursorPos ∧
      (0 < area.beginningOfCurrentLine →
        isCharBoundary area.text (area.beginningOfCurrentLine - 1) = true) := by
  rw [TextArea.beginningOfCurrentLine]
  split
  case h_1 index c found =>
    have newline : c = '\n' := by simpa using List.find?_some found
    have member := List.mem_reverse.mp (List.mem_of_find?_eq_some found)
    obtain ⟨first, last⟩ := isCharBoundary_of_mem member
    obtain ⟨boundary, -⟩ := isCharBoundary_of_upTo first
    rw [newline] at last
    obtain ⟨further, le⟩ := isCharBoundary_of_upTo last
    exact ⟨further, le, fun _ => boundary⟩
  case h_2 =>
    exact ⟨isCharBoundary_iff.mpr (Offsets.isBoundary_zero _), Nat.zero_le _,
      fun less => absurd less (Nat.lt_irrefl 0)⟩

end Cursor

/-! ## Edits between atoms -/

section Shifting

variable {before middle after atoms : List Atom} {text : Text} {elements : List TextElement}
  {element : TextElement}

/-- Elements behind an edit keep their distances. -/
theorem map_elementsFrom (offset offset' : ℕ) (moved : ℕ → ℕ)
    (moves : ∀ further, moved (offset + further) = offset' + further) :
    (elementsFrom offset atoms).map (fun element =>
        { element with range := ⟨moved element.range.start, moved element.range.stop⟩ }) =
      elementsFrom offset' atoms := by
  induction atoms generalizing offset offset' with
  | nil => rfl
  | cons atom atoms ih =>
      have later (size : ℕ) :
          ∀ further, moved (offset + size + further) = offset' + size + further :=
        fun further => by rw [Nat.add_assoc, moves, Nat.add_assoc]
      cases atom with
      | char c => exact ih _ _ (later _)
      | element id payload nonempty =>
          rw [elementsFrom, elementsFrom, List.map_cons, ih _ _ (later _),
            moves (len payload)]
          have start := moves 0
          rw [Nat.add_zero, Nat.add_zero] at start
          rw [start]

/-- Shifting the elements drops those of the middle and moves those behind it. -/
theorem shiftElements_eq (before middle after : List Atom) (inserted : ℕ) :
    shiftElements (elementsFrom 0 (before ++ (middle ++ after)))
        (Offsets.extent Atom.size before) (Offsets.extent Atom.size middle) inserted =
      elementsFrom 0 before ++
        elementsFrom (Offsets.extent Atom.size before + inserted) after := by
  generalize width : Offsets.extent Atom.size before = start
  generalize removed : Offsets.extent Atom.size middle = size
  have inFront : ∀ element ∈ elementsFrom 0 before,
      element.range.start < start ∧ element.range.stop ≤ start := by
    intro element member
    have bounds := bounds_of_mem member
    omega
  have inMiddle : ∀ element ∈ elementsFrom start middle,
      start ≤ element.range.start ∧ element.range.stop ≤ start + size := by
    intro element member
    have bounds := bounds_of_mem member
    omega
  have behind : ∀ element ∈ elementsFrom (start + size) after,
      start + size ≤ element.range.start ∧ element.range.start < element.range.stop := by
    intro element member
    have bounds := bounds_of_mem member
    omega
  rw [shiftElements]
  dsimp only
  rw [elementsFrom_append, elementsFrom_append, Nat.zero_add, width, removed, List.filter_append,
    List.filter_append, List.map_append, List.map_append]
  have front : ((elementsFrom 0 before).filter fun element =>
      !(start ≤ element.range.start && element.range.stop ≤ start + size)) =
      elementsFrom 0 before := by
    refine List.filter_eq_self.mpr fun element member => ?_
    have bounds := inFront element member
    simp only [Bool.not_eq_true', Bool.and_eq_false_iff, decide_eq_false_iff_not]
    omega
  have gone : ((elementsFrom start middle).filter fun element =>
      !(start ≤ element.range.start && element.range.stop ≤ start + size)) = [] := by
    refine List.filter_eq_nil_iff.mpr fun element member => ?_
    obtain ⟨first, last⟩ := inMiddle element member
    simp [first, last]
  have back : ((elementsFrom (start + size) after).filter fun element =>
      !(start ≤ element.range.start && element.range.stop ≤ start + size)) =
      elementsFrom (start + size) after := by
    refine List.filter_eq_self.mpr fun element member => ?_
    have bounds := behind element member
    simp only [Bool.not_eq_true', Bool.and_eq_false_iff, decide_eq_false_iff_not]
    omega
  rw [front, gone, back, List.map_nil, List.nil_append]
  congr 1
  · refine (List.map_congr_left fun element member => ?_).trans (List.map_id _)
    exact if_pos (inFront element member).2
  · rw [← map_elementsFrom (start + size) (start + inserted)
      (fun offset => (offset + ((inserted : ℤ) - size)).toNat) (fun further => by omega)]
    refine List.map_congr_left fun element member => ?_
    obtain ⟨first, wide⟩ := behind element member
    rw [if_neg (by omega), if_pos first]

theorem replaceText_eq (first second third inserted : Text) :
    replaceText (first ++ (second ++ third)) ⟨len first, len first + len second⟩ inserted =
      first ++ (inserted ++ third) := by
  have front : upTo (first ++ (second ++ third)) (len first) = first :=
    Offsets.front_append Char.utf8Size_pos first _
  have back : onward (first ++ (second ++ third)) (len first + len second) = third := by
    rw [← len_append, ← List.append_assoc]
    exact Offsets.back_append Char.utf8Size_pos _ third
  rw [replaceText, front, back]

/-- An edit of the text area is an edit of the atoms. -/
theorem Shows.edit (shown : Shows text elements (before ++ (middle ++ after))) (inserted : Text) :
    Shows
      (replaceText text
        ⟨Offsets.extent Atom.size before,
          Offsets.extent Atom.size before + Offsets.extent Atom.size middle⟩ inserted)
      (shiftElements elements (Offsets.extent Atom.size before) (Offsets.extent Atom.size middle)
        (len inserted)) (before ++ (chars inserted ++ after)) where
  text := by
    rw [shown.text, flatten_append, flatten_append, extent_eq, extent_eq, replaceText_eq]
    simp
  elements := by
    rw [shown.elements, shiftElements_eq]
    simp

end Shifting

section Labels

variable {before middle after atoms : List Atom} {front rest : Text}

/-- The elements with their ids and payloads. -/
def labelled (text : Text) (elements : List TextElement) : List (ℕ × Text) :=
  elements.map fun element => (element.id, slice text element.range)

theorem slice_append (first second third : Text) :
    slice (first ++ (second ++ third)) ⟨len first, len first + len second⟩ = second := by
  rw [slice, onward, upTo]
  dsimp only
  rw [Nat.add_sub_cancel_left, len, Offsets.back_append Char.utf8Size_pos, len,
    Offsets.front_append Char.utf8Size_pos]

/-- What an element range shows is the payload of its atom. -/
theorem labelled_elementsFrom (front : Text) (atoms : List Atom) (rest : Text) :
    labelled (front ++ (flatten atoms ++ rest)) (elementsFrom (len front) atoms) =
      atoms.filterMap Atom.label := by
  induction atoms generalizing front with
  | nil => rfl
  | cons atom atoms ih =>
      have later := ih (front ++ atom.text)
      rw [List.append_assoc, len_append] at later
      have whole : flatten (atom :: atoms) ++ rest = atom.text ++ (flatten atoms ++ rest) :=
        List.append_assoc _ _ _
      rw [whole]
      cases atom with
      | char c => exact later
      | element id payload nonempty =>
          rw [elementsFrom, labelled, List.map_cons]
          refine congrArg₂ List.cons ?_ later
          exact congrArg (Prod.mk id) (slice_append front payload _)

theorem labelled_of_shows {text : Text} {elements : List TextElement}
    (shown : Shows text elements atoms) : labelled text elements = atoms.filterMap Atom.label := by
  have whole := labelled_elementsFrom [] atoms []
  rw [List.append_nil] at whole
  rw [shown.text, shown.elements]
  exact whole

end Labels

end CodexPilot.Composer
