import CodexPilot.Composer.Operations

/-!
# Elements are atomic

Whatever is done to a text area, its elements stay well formed, and every operation that does not
replace the whole text leaves an element alone or removes it as a whole.  Ids are handed out in
order; the counter stops at the greatest number, and only that one can be handed out twice.
-/

namespace CodexPilot.Composer

open RustStd Overlaps

/-! ## Ids -/

/-- Ids that were handed out in order, up to the greatest one. -/
structure FreshIds (ids : List ℕ) (next : ℕ) : Prop where
  bounded : next ≤ u64Max
  below : ∀ id ∈ ids, id < next ∨ id = u64Max
  distinct : (ids.filter fun id => id != u64Max).Nodup

section Ids

variable {ids others : List ℕ} {next : ℕ}

theorem FreshIds.sublist (fresh : FreshIds ids next) (fewer : others.Sublist ids) :
    FreshIds others next :=
  ⟨fresh.bounded, fun id member => fresh.below id (fewer.subset member),
    fresh.distinct.sublist (fewer.filter _)⟩

theorem FreshIds.perm (fresh : FreshIds ids next) (same : others.Perm ids) : FreshIds others next :=
  ⟨fresh.bounded, fun id member => fresh.below id (same.subset member),
    (same.filter _).nodup_iff.mpr fresh.distinct⟩

theorem freshIds_nil (bounded : next ≤ u64Max) : FreshIds [] next :=
  ⟨bounded, List.forall_mem_nil _, List.nodup_nil⟩

/-- The next id is new, or the greatest one. -/
theorem FreshIds.push (fresh : FreshIds ids next) (pushed : others.Perm (ids ++ [next])) :
    FreshIds others (min (next + 1) u64Max) := by
  have bounded := fresh.bounded
  refine ⟨Nat.min_le_right _ _, fun id member => ?_, ?_⟩
  · obtain old | new := List.mem_append.mp (pushed.subset member)
    · obtain below | same := fresh.below id old
      · exact .inl (by omega)
      · exact .inr same
    · have same : id = next := List.mem_singleton.mp new
      omega
  · refine (pushed.filter _).nodup_iff.mpr ?_
    rw [List.filter_append]
    refine List.nodup_append.mpr ⟨fresh.distinct, (List.nodup_singleton next).filter _, ?_⟩
    intro id old id' new same
    obtain ⟨member, small⟩ := List.mem_filter.mp old
    have latest : id' = next := List.mem_singleton.mp (List.mem_filter.mp new).1
    obtain below | greatest := fresh.below id member
    · omega
    · rw [greatest] at small
      exact absurd small (by simp)

end Ids

/-- What every text area keeps: well-formed elements, a cursor between two characters, and ids that
were handed out in order. -/
structure Sound (area : TextArea) : Prop where
  wellFormed : WellFormed area.text area.elements
  cursor : isCharBoundary area.text area.cursorPos = true
  ids : FreshIds (area.elements.map TextElement.id) area.nextElementId

/-! ## Sorted elements -/

section Sorting

variable {text : Text} {elements : List TextElement} {range : ByteRange} {id : ℕ}

theorem wellFormed_nil (text : Text) : WellFormed text [] :=
  ⟨List.forall_mem_nil _, List.forall_mem_nil _, List.forall_mem_nil _, List.Pairwise.nil⟩

/-- Disjoint elements are well formed once they are sorted. -/
theorem wellFormed_sortByKey
    (nonempty : ∀ element ∈ elements, element.range.start < element.range.stop)
    (placed : ∀ element ∈ elements, isCharBoundary text element.range.start = true ∧
      isCharBoundary text element.range.stop = true)
    (disjoint : elements.Pairwise fun element other =>
      element.range.stop ≤ other.range.start ∨ other.range.stop ≤ element.range.start) :
    WellFormed text (sortByKey (fun element => element.range.start) elements) := by
  have sorted := pairwise_sortByKey (fun element : TextElement => element.range.start) elements
  have apart := disjoint.perm (perm_sortByKey (fun element => element.range.start) elements).symm
    fun either => either.symm
  refine ⟨fun element member => nonempty element (mem_sortByKey.mp member),
    fun element member => isCharBoundary_iff.mp (placed element (mem_sortByKey.mp member)).1,
    fun element member => isCharBoundary_iff.mp (placed element (mem_sortByKey.mp member)).2, ?_⟩
  refine (sorted.and apart).imp_of_mem fun first second both => ?_
  have wide := nonempty _ (mem_sortByKey.mp second)
  omega

/-- An element is added where no other one is. -/
theorem wellFormed_push (wellFormed : WellFormed text elements) (wide : range.start < range.stop)
    (first : isCharBoundary text range.start = true) (last : isCharBoundary text range.stop = true)
    (free : ∀ element ∈ elements,
      element.range.stop ≤ range.start ∨ range.stop ≤ element.range.start) :
    WellFormed text
      (sortByKey (fun element => element.range.start) (elements ++ [⟨id, range⟩])) := by
  refine wellFormed_sortByKey (fun element member => ?_) (fun element member => ?_) ?_
  · obtain old | new := List.mem_append.mp member
    · exact wellFormed.nonempty element old
    · cases List.mem_singleton.mp new
      exact wide
  · obtain old | new := List.mem_append.mp member
    · exact ⟨isCharBoundary_iff.mpr (wellFormed.start element old),
        isCharBoundary_iff.mpr (wellFormed.stop element old)⟩
    · cases List.mem_singleton.mp new
      exact ⟨first, last⟩
  · refine List.pairwise_append.mpr ⟨wellFormed.disjoint.imp .inl, List.pairwise_singleton _ _, ?_⟩
    intro element old other new
    cases List.mem_singleton.mp new
    exact free element old

end Sorting

/-! ## Edits -/

section Edits

variable {area after : TextArea} {range : ByteRange} {inserted : Text}

/-- Whether an element is outside of a range. -/
def outside (range : ByteRange) (element : TextElement) : Bool :=
  element.range.stop ≤ range.start || range.stop ≤ element.range.start

theorem Edited.text_eq (edited : Edited area range inserted after) :
    after.text = replaceText area.text range inserted := by
  obtain ⟨front, middle, back, before, rfl, behind⟩ := edited.atoms
  rw [behind.text, before.text, flatten_append, flatten_append, flatten_append, flatten_append,
    flatten_chars, extent_eq, extent_eq, replaceText_eq]

/-- The elements outside of the edited range stay, with their payloads. -/
theorem Edited.labelled_eq (edited : Edited area range inserted after) :
    labelled after.text after.elements =
      labelled area.text (area.elements.filter (outside range)) := by
  obtain ⟨front, middle, back, before, rfl, behind⟩ := edited.atoms
  have kept : area.elements.filter (outside
      ⟨Offsets.extent Atom.size front,
        Offsets.extent Atom.size front + Offsets.extent Atom.size middle⟩) =
      elementsFrom 0 front ++
        elementsFrom (Offsets.extent Atom.size front + Offsets.extent Atom.size middle) back := by
    rw [before.elements, elementsFrom_append, elementsFrom_append, Nat.zero_add,
      List.filter_append, List.filter_append]
    have first : (elementsFrom 0 front).filter (outside
        ⟨Offsets.extent Atom.size front,
          Offsets.extent Atom.size front + Offsets.extent Atom.size middle⟩) =
        elementsFrom 0 front := by
      refine List.filter_eq_self.mpr fun element member => ?_
      have bounds := bounds_of_mem member
      simp only [outside, Bool.or_eq_true, decide_eq_true_eq]
      omega
    have second : (elementsFrom (Offsets.extent Atom.size front) middle).filter (outside
        ⟨Offsets.extent Atom.size front,
          Offsets.extent Atom.size front + Offsets.extent Atom.size middle⟩) = [] := by
      refine List.filter_eq_nil_iff.mpr fun element member => ?_
      have bounds := bounds_of_mem member
      simp only [outside, Bool.or_eq_true, decide_eq_true_eq]
      omega
    have third : (elementsFrom (Offsets.extent Atom.size front + Offsets.extent Atom.size middle)
        back).filter (outside
          ⟨Offsets.extent Atom.size front,
            Offsets.extent Atom.size front + Offsets.extent Atom.size middle⟩) =
        elementsFrom (Offsets.extent Atom.size front + Offsets.extent Atom.size middle) back := by
      refine List.filter_eq_self.mpr fun element member => ?_
      have bounds := bounds_of_mem member
      simp only [outside, Bool.or_eq_true, decide_eq_true_eq]
      omega
    rw [first, second, third, List.nil_append]
  have shown (atoms : List Atom) (beforeText behindText : Text) :
      labelled (beforeText ++ (flatten atoms ++ behindText)) (elementsFrom (len beforeText) atoms) =
        atoms.filterMap Atom.label := labelled_elementsFrom beforeText atoms behindText
  have firstPart := shown front [] (flatten middle ++ flatten back)
  have lastPart := shown back (flatten front ++ flatten middle) []
  rw [List.append_nil, len_append, ← extent_eq, ← extent_eq, List.append_assoc] at lastPart
  have noLabel : (chars inserted).filterMap Atom.label = [] := by
    rw [chars, List.filterMap_map]
    exact List.filterMap_eq_nil_iff.mpr fun c _ => rfl
  rw [labelled_of_shows behind, kept, before.text, List.filterMap_append, List.filterMap_append,
    noLabel, labelled, List.map_append, flatten_append, flatten_append]
  exact congrArg₂ (· ++ ·) firstPart.symm lastPart.symm

theorem ids_labelled (text : Text) (elements : List TextElement) :
    (labelled text elements).map Prod.fst = elements.map TextElement.id := by
  rw [labelled, List.map_map]
  rfl

/-- An edit keeps a text area sound. -/
theorem Edited.sound (edited : Edited area range inserted after) (sound : Sound area) :
    Sound after := by
  obtain ⟨front, middle, back, -, -, behind⟩ := edited.atoms
  refine ⟨behind.wellFormed, edited.cursor, ?_⟩
  rw [edited.nextElementId]
  refine sound.ids.sublist ?_
  rw [← ids_labelled after.text, edited.labelled_eq, ids_labelled]
  exact List.filter_sublist.map _

end Edits

/-! ## Operations -/

section Operations

variable {area after : TextArea} {atoms : List Atom} {range : ByteRange} {text : Text}
  {graphemes : Graphemes} {op : Op}

/-- Moving the cursor. -/
theorem Sound.setCursor (sound : Sound area) (pos : ℕ) : Sound (area.setCursor pos) := by
  obtain ⟨atoms, shown⟩ := wellFormed_iff_shows.mp sound.wellFormed
  exact ⟨sound.wellFormed, isCharBoundary_of_atoms shown (isBoundary_clampPosOutside shown _),
    sound.ids⟩

/-- A new element, where no other one is. -/
theorem Sound.addElement (sound : Sound area) (wide : range.start < range.stop)
    (first : isCharBoundary area.text range.start = true)
    (last : isCharBoundary area.text range.stop = true) (free : ∀ element ∈ area.elements,
      element.range.stop ≤ range.start ∨ range.stop ≤ element.range.start) :
    Sound (area.addElement range) := by
  refine ⟨wellFormed_push sound.wellFormed wide first last free, sound.cursor, sound.ids.push ?_⟩
  have sorted := (perm_sortByKey (fun element : TextElement => element.range.start)
    (area.elements ++ [⟨area.nextElementId, range⟩])).map TextElement.id
  rwa [List.map_append] at sorted

theorem labelled_addElement (area : TextArea) (range : ByteRange) :
    (labelled (area.addElement range).text (area.addElement range).elements).Perm
      (labelled area.text area.elements ++ [(area.nextElementId, slice area.text range)]) := by
  have sorted := (perm_sortByKey (fun element : TextElement => element.range.start)
    (area.elements ++ [⟨area.nextElementId, range⟩])).map
    fun element => (element.id, slice area.text element.range)
  rwa [List.map_append] at sorted

/-- A range that is clamped keeps its order. -/
theorem isCharBoundary_clampRange (text : Text) (range : ByteRange) :
    isCharBoundary text (TextArea.clampRange text range).start = true ∧
      isCharBoundary text (TextArea.clampRange text range).stop = true :=
  ⟨isCharBoundary_clampPosToCharBoundary text _, isCharBoundary_clampPosToCharBoundary text _⟩

/-- `add_element_range` adds an element, or does nothing because the range is empty or touches an
element. -/
theorem addElementRange_cases (area : TextArea) (range : ByteRange) :
    let clamped := TextArea.clampRange area.text range
    (area.addElementRange range = area ∧
        (clamped.start < clamped.stop →
          ∃ element ∈ area.elements, element.range.Touches clamped)) ∨
      (area.addElementRange range = area.addElement clamped ∧ clamped.start < clamped.stop ∧
        ∀ element ∈ area.elements,
          element.range.stop ≤ clamped.start ∨ clamped.stop ≤ element.range.start) := by
  dsimp only
  rw [TextArea.addElementRange]
  split
  case isTrue empty => exact .inl ⟨rfl, fun wide => absurd empty (Nat.not_le_of_lt wide)⟩
  case isFalse wide =>
    split
    case isTrue repeated =>
      obtain ⟨element, member, same⟩ := List.any_eq_true.mp repeated
      refine .inl ⟨rfl, fun wide => ⟨element, member, ?_⟩⟩
      rw [beq_iff_eq.mp same]
      exact ⟨wide, wide⟩
    case isFalse =>
      split
      case isTrue overlapping =>
        obtain ⟨element, member, both⟩ := List.any_eq_true.mp overlapping
        simp only [Bool.and_eq_true, decide_eq_true_eq] at both
        exact .inl ⟨rfl, fun _ => ⟨element, member, both.2, both.1⟩⟩
      case isFalse free =>
        refine .inr ⟨rfl, Nat.lt_of_not_le wide, fun element member => ?_⟩
        have unmet : ¬(_ ∧ _) := fun both =>
          free (List.any_eq_true.mpr ⟨element, member, by simpa using both⟩)
        omega

theorem Sound.addElementRange (sound : Sound area) (range : ByteRange) :
    Sound (area.addElementRange range) := by
  obtain ⟨same, -⟩ | ⟨added, wide, free⟩ := addElementRange_cases area range
  · rw [same]
    exact sound
  · obtain ⟨first, last⟩ := isCharBoundary_clampRange area.text range
    rw [added]
    exact sound.addElement wide first last free

theorem Sound.removeElementRange (sound : Sound area) (range : ByteRange) :
    Sound (area.removeElementRange range) := by
  rw [TextArea.removeElementRange]
  split
  · exact sound
  · have fewer : (area.elements.filter fun element =>
        element.range != TextArea.clampRange area.text range).Sublist area.elements :=
      List.filter_sublist
    obtain ⟨⟨nonempty, start, stop, disjoint⟩, cursor, ids⟩ := sound
    exact ⟨⟨fun element member => nonempty element (fewer.subset member),
      fun element member => start element (fewer.subset member),
      fun element member => stop element (fewer.subset member), disjoint.sublist fewer⟩, cursor,
      ids.sublist (fewer.map _)⟩

/-- Behind an insertion, the inserted text lies between two boundaries and outside of every
element. -/
theorem Edited.inserted_free {start : ℕ} (edited : Edited area ⟨start, start⟩ text after) :
    isCharBoundary after.text start = true ∧ isCharBoundary after.text (start + len text) = true ∧
      ∀ element ∈ after.elements,
        element.range.stop ≤ start ∨ start + len text ≤ element.range.start := by
  obtain ⟨front, middle, back, -, place, behind⟩ := edited.atoms
  injection place with same
  subst same
  refine ⟨isCharBoundary_of_atoms behind ⟨front, _, rfl, rfl⟩,
    isCharBoundary_of_atoms behind ⟨front ++ chars text, back, by simp, by simp⟩, ?_⟩
  intro element member
  rw [behind.elements, elementsFrom_append, elementsFrom_append, elementsFrom_chars,
    List.nil_append, Nat.zero_add, extent_chars] at member
  obtain first | last := List.mem_append.mp member
  · have bounds := bounds_of_mem first
    omega
  · exact .inr (bounds_of_mem last).1

/-- `insert_element` inserts the text at the cursor and adds an element for it. -/
theorem edited_insertElement (sound : Sound area) (text : Text) :
    Edited area ⟨area.clampPosForInsertion area.cursorPos,
        area.clampPosForInsertion area.cursorPos⟩ text
      (area.insertStrAt (area.clampPosForInsertion area.cursorPos) text) := by
  obtain ⟨atoms, shown⟩ := wellFormed_iff_shows.mp sound.wellFormed
  have again : area.clampPosForInsertion (area.clampPosForInsertion area.cursorPos) =
      area.clampPosForInsertion area.cursorPos :=
    clampPosOutside_of_isBoundary shown (isBoundary_clampPosOutside shown area.cursorPos)
  have edited := edited_insertStrAt shown sound.cursor
    (area.clampPosForInsertion area.cursorPos) text
  rwa [again] at edited

theorem Sound.insertElement (sound : Sound area) (nonempty : text ≠ []) :
    Sound (area.insertElement text) := by
  have edited := edited_insertElement sound text
  obtain ⟨first, last, free⟩ := edited.inserted_free
  exact ((edited.sound sound).addElement (Nat.lt_add_of_pos_right (len_pos nonempty)) first last
    free).setCursor _

/-- An operation that asks for nothing and marks nothing does nothing, or moves the cursor. -/
theorem unchanged_of_asks (kind : ¬op.Rewrites) (unmarked : ∀ range, op ≠ .addElementRange range)
    (unremoved : ∀ range, op ≠ .removeElementRange range) (asked : op.asks graphemes area = none) :
    op.apply graphemes area = area ∨ ∃ pos, op.apply graphemes area = area.setCursor pos := by
  cases op with
  | insertStr | insertStrAt | replaceRange | insertElement | deleteBackwardWord => cases asked
  | setCursor pos => exact .inr ⟨pos, rfl⟩
  | deleteBackward n =>
      rw [Op.asks] at asked
      split at asked
      case isTrue still => exact .inl (by rw [Op.apply, TextArea.deleteBackward, if_pos still])
      case isFalse => cases asked
  | deleteForward n =>
      rw [Op.asks] at asked
      split at asked
      case isTrue still => exact .inl (by rw [Op.apply, TextArea.deleteForward, if_pos still])
      case isFalse => cases asked
  | deleteForwardWord =>
      rw [Op.asks] at asked
      split at asked
      case isTrue => cases asked
      case isFalse still =>
        exact .inl (by rw [Op.apply, TextArea.deleteForwardWord, if_neg still])
  | killToEndOfLine =>
      rw [Op.asks] at asked
      split at asked
      case isFalse => cases asked
      case isTrue atEnd =>
        split at asked
        case isTrue => cases asked
        case isFalse still =>
          exact .inl (by rw [Op.apply, TextArea.killToEndOfLine, if_pos atEnd, if_neg still])
  | killToBeginningOfLine =>
      rw [Op.asks] at asked
      split at asked
      case isFalse => cases asked
      case isTrue atStart =>
        split at asked
        case isTrue => cases asked
        case isFalse still =>
          refine .inl ?_
          rw [Op.apply, TextArea.killToBeginningOfLine, if_pos atStart, if_neg still]
  | yank =>
      rw [Op.asks] at asked
      split at asked
      case isTrue still => exact .inl (by rw [Op.apply, TextArea.yank, if_pos still])
      case isFalse => cases asked
  | addElementRange range => exact absurd rfl (unmarked range)
  | removeElementRange range => exact absurd rfl (unremoved range)
  | replaceElementPayload | setTextClearingElements | setTextWithElements =>
      exact absurd trivial kind

theorem keeps_of_asks {inserted : Text} (unremoved : ∀ range, op ≠ .removeElementRange range)
    (asked : op.asks graphemes area = some (range, inserted)) :
    op.keeps graphemes area = outside (Op.editedRange area range) := by
  funext element
  rw [Op.keeps, asked]
  · rfl
  · exact unremoved

theorem keeps_of_asks_eq_none (unremoved : ∀ range, op ≠ .removeElementRange range)
    (asked : op.asks graphemes area = none) : op.keeps graphemes area = fun _ => true := by
  funext element
  rw [Op.keeps, asked]
  exact unremoved

/-- Operations that do no more than what they ask for. -/
theorem Sound.atomic_of_asks (sound : Sound area) (allowed : op.Allowed area) (kind : ¬op.Rewrites)
    (plain : ∀ text, op ≠ .insertElement text) (unmarked : ∀ range, op ≠ .addElementRange range)
    (unremoved : ∀ range, op ≠ .removeElementRange range) :
    op.Atomic graphemes area (op.apply graphemes area) := by
  obtain ⟨atoms, shown⟩ := wellFormed_iff_shows.mp sound.wellFormed
  cases asked : op.asks graphemes area with
  | none =>
      have kept : area.elements.filter (op.keeps graphemes area) = area.elements := by
        rw [keeps_of_asks_eq_none unremoved asked]
        exact List.filter_eq_self.mpr fun _ _ => rfl
      obtain same | ⟨pos, moved⟩ := unchanged_of_asks kind unmarked unremoved asked
      · rw [same]
        refine ⟨by rw [asked], [], .inl rfl, ?_⟩
        rw [kept, List.append_nil]
      · rw [moved]
        refine ⟨by rw [asked]; rfl, [], .inl rfl, ?_⟩
        rw [kept, List.append_nil]
        rfl
  | some wanted =>
      obtain ⟨range, inserted⟩ := wanted
      have edited := edited_of_asks shown sound.cursor graphemes allowed plain asked
      refine ⟨by rw [asked]; exact edited.text_eq, [], .inl rfl, ?_⟩
      rw [edited.labelled_eq, keeps_of_asks unremoved asked, List.append_nil]

/-- What an operation does to the elements of a sound text area. -/
theorem Sound.atomic (sound : Sound area) (allowed : op.Allowed area) (kind : ¬op.Rewrites) :
    op.Atomic graphemes area (op.apply graphemes area) := by
  cases op with
  | insertElement text =>
      obtain ⟨atoms, shown⟩ := wellFormed_iff_shows.mp sound.wellFormed
      have edited := edited_insertElement sound text
      have place := editedRange_insertion shown area.cursorPos
      have asked : (Op.insertElement text).asks graphemes area =
          some (⟨area.clampPosForInsertion area.cursorPos,
            area.clampPosForInsertion area.cursorPos⟩, text) := rfl
      have labels := labelled_addElement
        (area.insertStrAt (area.clampPosForInsertion area.cursorPos) text)
        ⟨area.clampPosForInsertion area.cursorPos,
          area.clampPosForInsertion area.cursorPos + len text⟩
      have kept := keeps_of_asks (fun _ => by simp) asked
      rw [place] at kept
      rw [edited.labelled_eq, ← kept] at labels
      refine ⟨?_, _, .inr ⟨_, rfl⟩, labels⟩
      rw [asked]
      dsimp only
      rw [place]
      exact edited.text_eq
  | addElementRange range =>
      have asked : (Op.addElementRange range).asks graphemes area = none := rfl
      have kept : area.elements.filter ((Op.addElementRange range).keeps graphemes area) =
          area.elements := List.filter_eq_self.mpr fun _ _ => rfl
      obtain ⟨same, -⟩ | ⟨added, -⟩ := addElementRange_cases area range
      · rw [Op.apply, same]
        refine ⟨by rw [asked], [], .inl rfl, ?_⟩
        rw [kept, List.append_nil]
      · rw [Op.apply, added]
        have labels := labelled_addElement area (TextArea.clampRange area.text range)
        exact ⟨by rw [asked]; rfl, _, .inr ⟨_, rfl⟩, kept.symm ▸ labels⟩
  | removeElementRange range =>
      have asked : (Op.removeElementRange range).asks graphemes area = none := rfl
      rw [Op.apply, TextArea.removeElementRange]
      split
      case isTrue empty =>
        -- An empty range is the range of no element.
        have kept : area.elements.filter ((Op.removeElementRange range).keeps graphemes area) =
            area.elements := by
          refine List.filter_eq_self.mpr fun element member => bne_iff_ne.mpr fun same => ?_
          have wide := sound.wellFormed.nonempty element member
          rw [same] at wide
          omega
        refine ⟨by rw [asked], [], .inl rfl, ?_⟩
        rw [kept, List.append_nil]
      case isFalse =>
        refine ⟨by rw [asked], [], .inl rfl, ?_⟩
        rw [List.append_nil]
        rfl
  | insertStr | insertStrAt | replaceRange | deleteBackward | deleteForward | deleteBackwardWord
  | deleteForwardWord | killToEndOfLine | killToBeginningOfLine | yank | setCursor =>
      refine sound.atomic_of_asks allowed kind ?_ ?_ ?_ <;> simp
  | replaceElementPayload | setTextClearingElements | setTextWithElements =>
      exact absurd trivial kind

end Operations

/-! ## Whole buffers and payloads -/

section Rebuilding

variable {area : TextArea} {text : Text} {pending : List ByteRange} {range other : ByteRange}

theorem Apart.clampRange (apart : Apart range other) (text : Text) :
    Apart (TextArea.clampRange text range) (TextArea.clampRange text other) := by
  have mono {first second : ℕ} (le : first ≤ second) :
      clampPosToCharBoundary text (min first (len text)) ≤
        clampPosToCharBoundary text (min second (len text)) :=
    clampPosToCharBoundary_mono text (min_le_min_right _ le)
  obtain ordered | ordered | empty | empty := apart
  · exact .inl (mono ordered)
  · exact .inr (.inl (mono ordered))
  · exact .inr (.inr (.inl (mono empty)))
  · exact .inr (.inr (.inr (mono empty)))

/-- What the loop of `set_text_inner` keeps while ranges are pending. -/
structure Rebuilding (text : Text) (area : TextArea) (pending : List ByteRange) : Prop where
  same : area.text = text
  nonempty : ∀ element ∈ area.elements, element.range.start < element.range.stop
  placed : ∀ element ∈ area.elements, isCharBoundary text element.range.start = true ∧
    isCharBoundary text element.range.stop = true
  disjoint : area.elements.Pairwise fun element other =>
    element.range.stop ≤ other.range.start ∨ other.range.stop ≤ element.range.start
  apart : ∀ element ∈ area.elements, ∀ range ∈ pending,
    Apart element.range (TextArea.clampRange text range)
  ids : FreshIds (area.elements.map TextElement.id) area.nextElementId

theorem Rebuilding.rebuildElement (rebuilding : Rebuilding text area (range :: pending))
    (apart : ∀ other ∈ pending, Apart range other) :
    Rebuilding text (area.rebuildElement range) pending := by
  obtain ⟨rfl, nonempty, placed, disjoint, free, ids⟩ := rebuilding
  have later : ∀ element ∈ area.elements, ∀ range ∈ pending,
      Apart element.range (TextArea.clampRange area.text range) :=
    fun element member range pends => free element member range (List.mem_cons_of_mem _ pends)
  rw [TextArea.rebuildElement]
  split
  · exact ⟨rfl, nonempty, placed, disjoint, later, ids⟩
  case isFalse wide =>
    refine ⟨rfl, fun element member => ?_, fun element member => ?_, ?_, fun element member => ?_,
      ids.push (by rw [List.map_append]; rfl)⟩
    · obtain old | new := List.mem_append.mp member
      · exact nonempty element old
      · cases List.mem_singleton.mp new
        exact Nat.lt_of_not_le wide
    · obtain old | new := List.mem_append.mp member
      · exact placed element old
      · cases List.mem_singleton.mp new
        exact isCharBoundary_clampRange area.text range
    · refine List.pairwise_append.mpr ⟨disjoint, List.pairwise_singleton _ _, ?_⟩
      intro element old other new
      cases List.mem_singleton.mp new
      have first := nonempty element old
      obtain before | behind | empty | empty := free element old range List.mem_cons_self
      · exact .inl before
      · exact .inr behind
      · omega
      · exact absurd empty wide
    · obtain old | new := List.mem_append.mp member
      · exact later element old
      · cases List.mem_singleton.mp new
        exact fun other pends => (apart other pends).clampRange area.text

theorem Rebuilding.foldl (rebuilding : Rebuilding text area pending)
    (apart : pending.Pairwise Apart) :
    Rebuilding text (pending.foldl TextArea.rebuildElement area) [] := by
  induction pending generalizing area with
  | nil => exact rebuilding
  | cons range pending ih =>
      obtain ⟨first, rest⟩ := List.pairwise_cons.mp apart
      exact ih (rebuilding.rebuildElement first) rest

/-- A text area whose elements are well formed is sound once its cursor is clamped. -/
theorem sound_clamped (wellFormed : WellFormed area.text area.elements)
    (ids : FreshIds (area.elements.map TextElement.id) area.nextElementId) (pos : ℕ) :
    Sound
      { area with cursorPos := area.clampPosToNearestBoundary pos } := by
  obtain ⟨atoms, shown⟩ := wellFormed_iff_shows.mp wellFormed
  exact ⟨wellFormed, isCharBoundary_of_atoms shown (isBoundary_clampPosOutside shown pos), ids⟩

/-- The text area with a new text and no elements. -/
def blanked (area : TextArea) (text : Text) : TextArea :=
  { area with text, cursorPos := min area.cursorPos (len text), elements := [] }

theorem Sound.setTextClearingElements (sound : Sound area) (text : Text) :
    Sound (area.setTextClearingElements text) := by
  have wellFormed : WellFormed (blanked area text).text (blanked area text).elements :=
    wellFormed_nil text
  have ids : FreshIds ((blanked area text).elements.map TextElement.id)
      (blanked area text).nextElementId := freshIds_nil sound.ids.bounded
  exact sound_clamped wellFormed ids _

theorem Sound.setTextWithElements (sound : Sound area) (text : Text) {elements : List ByteRange}
    (apart : elements.Pairwise Apart) : Sound (area.setTextWithElements text elements) := by
  have start : Rebuilding text (blanked area text) elements :=
    ⟨rfl, List.forall_mem_nil _, List.forall_mem_nil _, List.Pairwise.nil, List.forall_mem_nil _,
      freshIds_nil sound.ids.bounded⟩
  obtain ⟨same, nonempty, placed, disjoint, -, ids⟩ := start.foldl apart
  let filled := elements.foldl TextArea.rebuildElement (blanked area text)
  let rebuilt : TextArea :=
    { filled with elements := sortByKey (fun element => element.range.start) filled.elements }
  have sameText : rebuilt.text = text := same
  have wellFormed : WellFormed rebuilt.text rebuilt.elements := by
    rw [sameText]
    exact wellFormed_sortByKey nonempty placed disjoint
  have ids' : FreshIds (rebuilt.elements.map TextElement.id) rebuilt.nextElementId :=
    ids.perm ((perm_sortByKey _ _).map _)
  exact sound_clamped wellFormed ids' _

end Rebuilding

section Payloads

variable {area : TextArea} {atoms : List Atom} {old new : Text}

/-- An element with what stands in front of it and behind it. -/
theorem split_elementsFrom {offset : ℕ} {front back : List TextElement} {element : TextElement}
    (split : elementsFrom offset atoms = front ++ element :: back) :
    ∃ before payload nonempty after,
      atoms = before ++ .element element.id payload nonempty :: after ∧
        elementsFrom offset before = front ∧
        element.range = ⟨offset + Offsets.extent Atom.size before,
          offset + Offsets.extent Atom.size before + len payload⟩ ∧
        elementsFrom (offset + Offsets.extent Atom.size before + len payload) after = back := by
  induction atoms generalizing offset front with
  | nil => exact absurd split (by simp [elementsFrom])
  | cons atom atoms ih =>
      cases atom with
      | char c =>
          obtain ⟨before, payload, nonempty, after, rfl, own, range, rest⟩ := ih split
          have reach : offset + Offsets.extent Atom.size (.char c :: before) =
              offset + Atom.size (.char c) + Offsets.extent Atom.size before := by
            rw [Offsets.extent_cons, Nat.add_assoc]
          refine ⟨.char c :: before, payload, nonempty, after, rfl, own, ?_, ?_⟩
          · rw [reach, range]
          · rw [reach, rest]
      | element id payload nonempty =>
          cases front with
          | nil =>
              obtain ⟨rfl, rest⟩ := List.cons_eq_cons.mp split
              exact ⟨[], payload, nonempty, atoms, rfl, rfl, rfl, rest⟩
          | cons first front =>
              obtain ⟨rfl, further⟩ := List.cons_eq_cons.mp split
              obtain ⟨before, other, present, after, rfl, own, range, rest⟩ := ih further
              have reach :
                  offset + Offsets.extent Atom.size (.element id payload nonempty :: before) =
                    offset + len payload + Offsets.extent Atom.size before := by
                rw [Offsets.extent_cons, Nat.add_assoc]
                rfl
              refine ⟨.element id payload nonempty :: before, other, present, after, rfl,
                ?_, ?_, ?_⟩
              · rw [elementsFrom, own]
              · rw [reach, range]
              · rw [reach, rest]

/-- One item of a list is changed one way and the others are changed another way. -/
theorem mapIdx_replace {α β : Type*} (front : List α) (item : α) (back : List α) (f g : α → β) :
    (front ++ item :: back).mapIdx (fun index other =>
        if index = front.length then f other else g other) =
      front.map g ++ f item :: back.map g := by
  refine List.ext_getElem (by simp) fun index first second => ?_
  rw [List.getElem_mapIdx]
  obtain inFront | rfl | behind := Nat.lt_trichotomy index front.length
  · rw [if_neg inFront.ne, List.getElem_append_left inFront,
      List.getElem_append_left (by simpa using inFront), List.getElem_map]
  · simp
  · obtain ⟨further, rfl⟩ := Nat.exists_eq_add_of_lt behind
    rw [if_neg (by omega), List.getElem_append_right (by omega),
      List.getElem_append_right (by rw [List.length_map]; omega)]
    simp [Nat.add_assoc]

/-- The elements behind a replaced payload move with it. -/
theorem map_moveElement {start : ℕ} {payload : Text} (inserted : ℕ) (after : List Atom) :
    (elementsFrom (start + len payload) after).map
        (TextArea.moveElement ⟨start, start + len payload⟩ inserted) =
      elementsFrom (start + inserted) after := by
  rw [← map_elementsFrom (start + len payload) (start + inserted)
    (fun offset => (offset + ((inserted : ℤ) - len payload)).toNat) (fun further => by omega)]
  refine List.map_congr_left fun element member => ?_
  have bounds := bounds_of_mem member
  rw [TextArea.moveElement]
  dsimp only
  rw [Nat.add_sub_cancel_left]
  split
  case isTrue still =>
    have same : (inserted : ℤ) - len payload = 0 := by omega
    rw [same]
    simp
  case isFalse =>
    rw [if_pos bounds.1]

/-- The elements in front of a replaced payload stay. -/
theorem map_moveElement_front {start stop : ℕ} (inserted : ℕ) {front : List TextElement}
    (inFront : ∀ element ∈ front, element.range.stop ≤ start) :
    front.map (TextArea.moveElement ⟨start, stop⟩ inserted) = front := by
  refine (List.map_congr_left fun element member => ?_).trans (List.map_id front)
  exact if_pos (.inr (inFront element member))

/-- The first element that shows the old payload gets the new one, and nothing else changes. -/
theorem replaceElementPayload_cases {atoms : List Atom}
    (shown : Shows area.text area.elements atoms) (nonempty : new ≠ []) (old : Text) :
    (area.replaceElementPayload old new = area ∧
        ∀ entry ∈ atoms.filterMap Atom.label, entry.2 ≠ old) ∨
      ∃ before id filled after, atoms = before ++ .element id old filled :: after ∧
        (∀ entry ∈ before.filterMap Atom.label, entry.2 ≠ old) ∧
        Shows (area.replaceElementPayload old new).text
          (area.replaceElementPayload old new).elements
          (before ++ .element id new nonempty :: after) ∧
        (area.replaceElementPayload old new).nextElementId = area.nextElementId ∧
        isCharBoundary (area.replaceElementPayload old new).text
          (area.replaceElementPayload old new).cursorPos = true := by
  have shows : ∀ element ∈ area.elements,
      get area.text element.range = some (slice area.text element.range) := by
    intro element member
    have wellFormed := shown.wellFormed
    exact if_pos ⟨(wellFormed.nonempty element member).le,
      isCharBoundary_iff.mpr (wellFormed.start element member),
      isCharBoundary_iff.mpr (wellFormed.stop element member)⟩
  rw [TextArea.replaceElementPayload]
  split
  case h_1 none =>
    refine .inl ⟨rfl, fun entry member same => ?_⟩
    rw [← labelled_of_shows shown] at member
    obtain ⟨element, there, rfl⟩ := List.mem_map.mp member
    have other := List.findIdx?_eq_none_iff.mp none element there
    have same' : slice area.text element.range = old := same
    rw [shows element there, same'] at other
    simp at other
  case h_2 index found =>
    obtain ⟨within, matched, first⟩ := List.findIdx?_eq_some_iff_getElem.mp found
    obtain ⟨front, element, back, split, rfl, own, earlier⟩ : ∃ front element back,
        area.elements = front ++ element :: back ∧ front.length = index ∧
          get area.text element.range = some old ∧
          ∀ other ∈ front, get area.text other.range ≠ some old := by
      refine ⟨area.elements.take index, area.elements[index], area.elements.drop (index + 1),
        by rw [List.getElem_cons_drop, List.take_append_drop], by simp; omega,
        by simpa using matched, fun other member => ?_⟩
      obtain ⟨place, small, rfl⟩ := List.mem_take_iff_getElem.mp member
      have differs := first place (by omega)
      simpa using differs
    have atRange : (area.elements.map TextElement.range).getD front.length ⟨0, 0⟩ =
        element.range := by rw [split]; simp
    have among : element ∈ area.elements := by rw [split]; simp
    obtain ⟨before, payload, filled, after, rfl, ownAtoms, range, rest⟩ :=
      split_elementsFrom (shown.elements.symm.trans split)
    rw [Nat.zero_add] at range rest
    have whole : area.text = flatten before ++ (payload ++ flatten after) := by
      rw [shown.text, flatten_append]
      rfl
    have payload_eq : payload = old := by
      rw [shows element among, range, extent_eq, whole, slice_append] at own
      exact Option.some.inj own
    subst payload_eq
    dsimp only
    rw [atRange]
    have bounds := bounds_of_mem (shown.elements ▸ among)
    rw [extent_eq, ← shown.text] at bounds
    rw [if_neg (by omega)]
    let edited : TextArea :=
      { area with
        text := replaceText area.text element.range new
        elements := area.elements.mapIdx fun other element' =>
          if other = front.length then
            { element' with range := ⟨element.range.start, element.range.start + len new⟩ }
          else TextArea.moveElement element.range (len new) element' }
    have elements : edited.elements =
        front ++ ⟨element.id, ⟨element.range.start, element.range.start + len new⟩⟩ ::
          elementsFrom (element.range.start + len new) after := by
      have inFront : ∀ other ∈ front, other.range.stop ≤ element.range.start := by
        intro other member
        rw [← ownAtoms] at member
        have bounds := bounds_of_mem member
        rw [range]
        dsimp only
        omega
      refine (congrArg _ split).trans ((mapIdx_replace front element back _ _).trans ?_)
      rw [← rest, range, map_moveElement, map_moveElement_front]
      rw [range] at inFront
      exact inFront
    have edits : Shows edited.text edited.elements
        (before ++ .element element.id new nonempty :: after) := by
      refine ⟨?_, ?_⟩
      · have replaced := replaceText_eq (flatten before) payload (flatten after) new
        rw [← whole, ← extent_eq, ← range] at replaced
        rw [flatten_append]
        exact replaced
      · rw [elements, elementsFrom_append, ownAtoms, Nat.zero_add, elementsFrom, range]
    have sorted : sortByKey (fun element : TextElement => element.range.start) edited.elements =
        edited.elements := by
      refine List.Pairwise.insertionSort_eq (edits.wellFormed.disjoint.imp_of_mem ?_)
      intro first later member _ behind
      exact (edits.wellFormed.nonempty first member).le.trans behind
    refine .inr ⟨before, element.id, filled, after, rfl, ?_, ?_, rfl, ?_⟩
    · have labels := labelled_elementsFrom [] before (payload ++ flatten after)
      have zero : len ([] : Text) = 0 := rfl
      rw [List.nil_append, ← whole, zero, ownAtoms] at labels
      rw [← labels]
      intro entry member same
      obtain ⟨other, there, rfl⟩ := List.mem_map.mp member
      refine earlier other there ?_
      rw [shows other (by rw [split]; exact List.mem_append_left _ there)]
      exact congrArg some same
    · refine ⟨edits.text, ?_⟩
      exact sorted.trans edits.elements
    · exact isCharBoundary_of_atoms edits (isBoundary_clampPosOutside edits _)

theorem Sound.replaceElementPayload (sound : Sound area) (nonempty : new ≠ []) (old : Text) :
    Sound (area.replaceElementPayload old new) := by
  obtain ⟨atoms, shown⟩ := wellFormed_iff_shows.mp sound.wellFormed
  obtain ⟨same, -⟩ | ⟨before, id, filled, after, rfl, -, shown', next, cursor⟩ :=
    replaceElementPayload_cases shown nonempty old
  · rw [same]
    exact sound
  · refine ⟨shown'.wellFormed, cursor, ?_⟩
    have ids : (area.replaceElementPayload old new).elements.map TextElement.id =
        area.elements.map TextElement.id := by
      rw [← ids_labelled (area.replaceElementPayload old new).text, ← ids_labelled area.text,
        labelled_of_shows shown', labelled_of_shows shown]
      simp [Atom.label]
    rw [ids, next]
    exact sound.ids

end Payloads

/-! ## Runs -/

section Runs

open Transitions

variable {graphemes : Graphemes} {area : TextArea} {op : Op} {ops : List Op}

theorem sound_new : Sound TextArea.new :=
  ⟨wellFormed_nil [], rfl, freshIds_nil (by decide)⟩

/-- Every operation keeps a text area sound. -/
theorem Sound.apply (sound : Sound area) (allowed : op.Allowed area) :
    Sound (op.apply graphemes area) := by
  obtain ⟨atoms, shown⟩ := wellFormed_iff_shows.mp sound.wellFormed
  have ofAsks (kind : ¬op.Rewrites) (plain : ∀ text, op ≠ .insertElement text)
      (unmarked : ∀ range, op ≠ .addElementRange range)
      (unremoved : ∀ range, op ≠ .removeElementRange range) : Sound (op.apply graphemes area) := by
    cases asked : op.asks graphemes area with
    | none =>
        obtain same | ⟨pos, moved⟩ := unchanged_of_asks kind unmarked unremoved asked
        · rw [same]
          exact sound
        · rw [moved]
          exact sound.setCursor pos
    | some wanted =>
        exact (edited_of_asks shown sound.cursor graphemes allowed plain asked).sound sound
  cases op with
  | insertElement text => exact sound.insertElement allowed
  | addElementRange range => exact sound.addElementRange range
  | removeElementRange range => exact sound.removeElementRange range
  | replaceElementPayload old new => exact sound.replaceElementPayload allowed old
  | setTextClearingElements text => exact sound.setTextClearingElements text
  | setTextWithElements text elements => exact sound.setTextWithElements text allowed
  | insertStr | insertStrAt | replaceRange | deleteBackward | deleteForward | deleteBackwardWord
  | deleteForwardWord | killToEndOfLine | killToBeginningOfLine | yank | setCursor =>
      refine ofAsks (fun rewrites => rewrites.elim) ?_ ?_ ?_ <;> simp

/-- Every run of allowed operations keeps a text area sound. -/
theorem sound_of_run (along : Along (Op.step graphemes) Op.Allowed TextArea.new ops)
    (ran : run (Op.step graphemes) TextArea.new ops = some area) : Sound area := by
  have kept : ∀ before op after, Sound before → op.Allowed before →
      Op.step graphemes before op = some after → Sound after := by
    intro before op after sound allowed stepped
    cases stepped
    exact sound.apply allowed
  exact invariant_of_run kept sound_new along ran

/-- In every run from an empty text area, the elements are well formed, only the greatest id is
handed out twice, and every operation but the whole-buffer replacements and the replacement of a
payload leaves each element as it is or removes it as a whole. -/
theorem elements_atomic_of_run (along : Along (Op.step graphemes) Op.Allowed TextArea.new ops)
    (ran : run (Op.step graphemes) TextArea.new ops = some area) :
    WellFormed area.text area.elements ∧
      ((area.elements.map TextElement.id).filter fun id => id != u64Max).Nodup ∧
      ∀ op : Op, op.Allowed area → ¬op.Rewrites →
        op.Atomic graphemes area (op.apply graphemes area) := by
  have sound := sound_of_run along ran
  exact ⟨sound.wellFormed, sound.ids.distinct, fun op allowed kind => sound.atomic allowed kind⟩

/-- A placeholder is typed after a word, and the word is killed. -/
def typedAndKilled : List Op :=
  [.insertStr "see ".toList, .insertElement "[file]".toList, .setCursor 3, .killToBeginningOfLine,
    .yank]

theorem elements_atomic_typedAndKilled :
    ∃ area, run (Op.step .byChar) TextArea.new typedAndKilled = some area ∧
      WellFormed area.text area.elements ∧
      ((area.elements.map TextElement.id).filter fun id => id != u64Max).Nodup ∧
      ∀ op : Op, op.Allowed area → ¬op.Rewrites →
        op.Atomic .byChar area (op.apply .byChar area) := by
  have along : Along (Op.step .byChar) Op.Allowed TextArea.new typedAndKilled := by
    refine along_of_always (fun op member state => ?_) TextArea.new
    simp only [typedAndKilled, List.mem_cons, List.not_mem_nil, or_false] at member
    obtain rfl | rfl | rfl | rfl | rfl := member
    all_goals first | exact trivial | exact List.cons_ne_nil _ _
  exact ⟨_, rfl, elements_atomic_of_run along rfl⟩

/-! ### The last id -/

/-- Marking the only letter of a text hands out an id. -/
theorem setTextWithElements_marked (area : TextArea) :
    (area.setTextWithElements ['a'] [⟨0, 1⟩]).nextElementId =
      min (area.nextElementId + 1) u64Max := by
  have only : TextArea.clampRange ['a'] ⟨0, 1⟩ = ⟨0, 1⟩ := rfl
  simp [TextArea.setTextWithElements, TextArea.setTextInner, TextArea.rebuildElement, only]

/-- Two new elements take the next two ids. -/
theorem setTextWithElements_two (area : TextArea) :
    (area.setTextWithElements ['a', 'b'] [⟨0, 1⟩, ⟨1, 2⟩]).elements.map TextElement.id =
      [area.nextElementId, min (area.nextElementId + 1) u64Max] := by
  have first : TextArea.clampRange ['a', 'b'] ⟨0, 1⟩ = ⟨0, 1⟩ := rfl
  have second : TextArea.clampRange ['a', 'b'] ⟨1, 2⟩ = ⟨1, 2⟩ := rfl
  simp [TextArea.setTextWithElements, TextArea.setTextInner, TextArea.rebuildElement, first, second,
    sortByKey]

/-- The only letter of a text is marked so often. -/
def markings (times : ℕ) : List Op := List.replicate times (.setTextWithElements ['a'] [⟨0, 1⟩])

/-- Every marking hands out an id, and the counter stops at the greatest one. -/
theorem run_markings (graphemes : Graphemes) (area : TextArea) (times : ℕ)
    (bounded : area.nextElementId ≤ u64Max) :
    ∃ marked, run (Op.step graphemes) area (markings times) = some marked ∧
      marked.nextElementId = min (area.nextElementId + times) u64Max := by
  induction times generalizing area with
  | zero => exact ⟨area, rfl, by omega⟩
  | succ times ih =>
      have next := setTextWithElements_marked area
      obtain ⟨marked, ran, next'⟩ :=
        ih (area.setTextWithElements ['a'] [⟨0, 1⟩]) (by omega)
      refine ⟨marked, ?_, by omega⟩
      rw [markings, List.replicate_succ, run_cons]
      exact ran

/-- The letter is marked, and then a text with two elements is set. -/
def exhausting (times : ℕ) : List Op :=
  markings times ++ [.setTextWithElements ['a', 'b'] [⟨0, 1⟩, ⟨1, 2⟩]]

theorem along_exhausting (times : ℕ) :
    Along (Op.step graphemes) Op.Allowed TextArea.new (exhausting times) := by
  refine along_of_always (fun op member state => ?_) TextArea.new
  rw [exhausting] at member
  obtain marking | last := List.mem_append.mp member
  · rw [(List.mem_replicate.mp marking).2]
    exact List.pairwise_singleton _ _
  · rw [List.mem_singleton.mp last]
    exact List.pairwise_pair.mpr (.inl le_rfl)

theorem ids_repeat (graphemes : Graphemes) {times : ℕ} (enough : u64Max ≤ times) :
    ∃ area, run (Op.step graphemes) TextArea.new (exhausting times) = some area ∧
      ¬(area.elements.map TextElement.id).Nodup := by
  have bounded : TextArea.new.nextElementId ≤ u64Max := by decide
  obtain ⟨marked, ran, next⟩ := run_markings graphemes TextArea.new times bounded
  refine ⟨marked.setTextWithElements ['a', 'b'] [⟨0, 1⟩, ⟨1, 2⟩], ?_, ?_⟩
  · rw [exhausting, run_append, ran]
    rfl
  · have greatest : marked.nextElementId = u64Max := by omega
    rw [setTextWithElements_two, greatest, Nat.min_eq_right (Nat.le_succ _)]
    simp

/-- When all ids have been handed out, two elements get the same one. -/
theorem ids_repeat_when_exhausted :
    Along (Op.step .byChar) Op.Allowed TextArea.new (exhausting u64Max) ∧
      ∃ area, run (Op.step .byChar) TextArea.new (exhausting u64Max) = some area ∧
        ¬(area.elements.map TextElement.id).Nodup :=
  ⟨along_exhausting u64Max, ids_repeat .byChar le_rfl⟩

end Runs

end CodexPilot.Composer
