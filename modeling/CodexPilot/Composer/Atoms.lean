import CodexPilot.Composer.TextArea

/-!
# Text as atoms

What a text area holds is a sequence of atoms: single characters, and elements with a payload that
is never empty.  Edits cut the sequence between two atoms.  A text with element ranges shows such a
sequence exactly when the ranges are not empty, in order, disjoint and on character boundaries.

A position is clamped to the nearest character boundary, and then to the nearest edge of an element
that has it inside.  Clamping keeps the order of positions.  A range is widened to the elements that
it touches; the loop that does it ends after two rounds.
-/

namespace CodexPilot.Composer

open RustStd

/-- A part of a text that is edited as a whole. -/
inductive Atom where
  | char (c : Char)
  | element (id : ℕ) (payload : Text) (nonempty : payload ≠ [])

namespace Atom

/-- The text that an atom shows. -/
def text : Atom → Text
  | .char c => [c]
  | .element _ payload _ => payload

/-- The bytes that an atom takes up. -/
def size (atom : Atom) : ℕ := len atom.text

/-- The id and the payload of an element. -/
def label : Atom → Option (ℕ × Text)
  | .char _ => none
  | .element id payload _ => some (id, payload)

end Atom

theorem len_pos {text : Text} (nonempty : text ≠ []) : 0 < len text :=
  Nat.pos_of_ne_zero fun none =>
    nonempty (Offsets.eq_nil_of_extent_eq_zero Char.utf8Size_pos none)

theorem Atom.size_pos (atom : Atom) : 0 < atom.size := by
  cases atom with
  | char c => exact len_pos (List.cons_ne_nil c [])
  | element id payload nonempty => exact len_pos nonempty

/-- The text of a sequence of atoms. -/
def flatten (atoms : List Atom) : Text := atoms.flatMap Atom.text

/-- The elements of a sequence of atoms, with their ranges counted from an offset on. -/
def elementsFrom : ℕ → List Atom → List TextElement
  | _, [] => []
  | offset, .char c :: atoms => elementsFrom (offset + Atom.size (.char c)) atoms
  | offset, .element id payload _ :: atoms =>
      ⟨id, offset, offset + len payload⟩ :: elementsFrom (offset + len payload) atoms

/-- The characters of a text as atoms. -/
def chars (text : Text) : List Atom := text.map .char

section Atoms

variable {atoms before middle after : List Atom} {offset pos : ℕ} {text : Text}
  {element : TextElement}

@[simp]
theorem flatten_append : flatten (before ++ after) = flatten before ++ flatten after :=
  List.flatMap_append

@[simp]
theorem flatten_chars (text : Text) : flatten (chars text) = text := by
  induction text with
  | nil => rfl
  | cons c text ih => exact congrArg (c :: ·) ih

@[simp]
theorem len_append {left right : Text} : len (left ++ right) = len left + len right :=
  Offsets.extent_append

/-- Atoms take up what their text takes up. -/
theorem extent_eq (atoms : List Atom) : Offsets.extent Atom.size atoms = len (flatten atoms) := by
  induction atoms with
  | nil => rfl
  | cons atom atoms ih =>
      rw [Offsets.extent_cons, ih]
      exact len_append.symm

@[simp]
theorem extent_chars (text : Text) : Offsets.extent Atom.size (chars text) = len text := by
  rw [extent_eq, flatten_chars]

@[simp]
theorem elementsFrom_append (offset : ℕ) (before after : List Atom) :
    elementsFrom offset (before ++ after) =
      elementsFrom offset before ++
        elementsFrom (offset + Offsets.extent Atom.size before) after := by
  induction before generalizing offset with
  | nil => rfl
  | cons atom before ih =>
      cases atom with
      | char c =>
          rw [List.cons_append, elementsFrom, ih, elementsFrom, Offsets.extent_cons,
            Nat.add_assoc]
      | element id payload nonempty =>
          rw [List.cons_append, elementsFrom, ih, elementsFrom, Offsets.extent_cons,
            ← Nat.add_assoc]
          rfl

@[simp]
theorem elementsFrom_chars (offset : ℕ) (text : Text) : elementsFrom offset (chars text) = [] := by
  induction text generalizing offset with
  | nil => rfl
  | cons c text ih => exact ih _

/-- An element stands where an atom says. -/
theorem mem_elementsFrom :
    element ∈ elementsFrom offset atoms ↔
      ∃ before payload nonempty after,
        atoms = before ++ .element element.id payload nonempty :: after ∧
          element.range.start = offset + Offsets.extent Atom.size before ∧
          element.range.stop = offset + Offsets.extent Atom.size before + len payload := by
  constructor
  · intro member
    induction atoms generalizing offset with
    | nil => cases member
    | cons atom atoms ih =>
        cases atom with
        | char c =>
            obtain ⟨before, payload, nonempty, after, rfl, start, stop⟩ := ih member
            refine ⟨.char c :: before, payload, nonempty, after, rfl, ?_, ?_⟩
            · rw [start, Offsets.extent_cons, Nat.add_assoc]
            · rw [stop, Offsets.extent_cons, Nat.add_assoc offset]
        | element id payload nonempty =>
            obtain rfl | later := List.mem_cons.mp member
            · exact ⟨[], payload, nonempty, atoms, rfl, rfl, rfl⟩
            · obtain ⟨before, other, present, after, rfl, start, stop⟩ := ih later
              refine ⟨.element id payload nonempty :: before, other, present, after, rfl, ?_, ?_⟩
              · rw [start, Offsets.extent_cons, ← Nat.add_assoc]
                rfl
              · rw [stop, Offsets.extent_cons, ← Nat.add_assoc offset]
                rfl
  · rintro ⟨before, payload, nonempty, after, rfl, start, stop⟩
    rw [elementsFrom_append]
    refine List.mem_append_right _ (List.mem_cons.mpr (.inl ?_))
    obtain ⟨id, first, last⟩ := element
    cases start
    cases stop
    rfl

theorem bounds_of_mem (member : element ∈ elementsFrom offset atoms) :
    offset ≤ element.range.start ∧ element.range.start < element.range.stop ∧
      element.range.stop ≤ offset + Offsets.extent Atom.size atoms := by
  obtain ⟨before, payload, nonempty, after, rfl, start, stop⟩ := mem_elementsFrom.mp member
  have positive := len_pos nonempty
  have size : Atom.size (.element element.id payload nonempty) = len payload := rfl
  rw [Offsets.extent_append, Offsets.extent_cons]
  omega

/-- Between two atoms, or strictly inside an element. -/
theorem isBoundary_or_inside (offset : ℕ)
    (boundary : Offsets.IsBoundary Char.utf8Size (flatten atoms) pos) :
    Offsets.IsBoundary Atom.size atoms pos ∨
      ∃ element ∈ elementsFrom offset atoms,
        element.range.start < offset + pos ∧ offset + pos < element.range.stop := by
  induction atoms generalizing offset pos with
  | nil =>
      obtain ⟨before, after, whole, rfl⟩ := boundary
      rw [(List.append_eq_nil_iff.mp whole.symm).1]
      exact .inl (Offsets.isBoundary_zero [])
  | cons atom atoms ih =>
      have whole : flatten (atom :: atoms) = atom.text ++ flatten atoms := rfl
      rw [whole] at boundary
      obtain behind | within := Nat.lt_or_ge pos atom.size |>.symm
      · obtain ⟨further, rfl⟩ := Nat.exists_eq_add_of_le behind
        obtain between | ⟨element, member, inside⟩ :=
          ih (offset + atom.size)
            ((Offsets.isBoundary_append_iff Char.utf8Size_pos).mp boundary)
        · have single : Offsets.extent Atom.size [atom] = atom.size := by simp
          refine .inl ?_
          have lifted : Offsets.IsBoundary Atom.size ([atom] ++ atoms)
              (Offsets.extent Atom.size [atom] + further) :=
            (Offsets.isBoundary_append_iff Atom.size_pos).mpr between
          rw [← single]
          exact lifted
        · refine .inr ⟨element, ?_, by omega⟩
          cases atom with
          | char c => exact member
          | element id payload nonempty => exact List.mem_cons_of_mem _ member
      · obtain rfl | positive := Nat.eq_zero_or_pos pos
        · exact .inl (Offsets.isBoundary_zero _)
        · cases atom with
          | element id payload nonempty =>
              refine .inr ⟨⟨id, offset, offset + len payload⟩, List.mem_cons_self, ?_⟩
              exact ⟨Nat.lt_add_of_pos_right positive, Nat.add_lt_add_left within offset⟩
          | char c =>
              -- A character has no boundary inside.
              obtain ⟨before, after, split, rfl⟩ := boundary
              cases before with
              | nil => exact absurd positive (Nat.lt_irrefl 0)
              | cons first before =>
                  obtain ⟨rfl, -⟩ := List.cons_eq_cons.mp split
                  have whole : Atom.size (.char c) = c.utf8Size := Nat.add_zero _
                  rw [whole, Offsets.extent_cons] at within
                  omega

/-- What lies between two atoms is inside no element. -/
theorem not_inside (between : Offsets.IsBoundary Atom.size atoms pos)
    (member : element ∈ elementsFrom 0 atoms) :
    element.range.stop ≤ pos ∨ pos ≤ element.range.start := by
  obtain ⟨before, after, rfl, rfl⟩ := between
  rw [elementsFrom_append, Nat.zero_add] at member
  obtain front | behind := List.mem_append.mp member
  · have bounds := bounds_of_mem front
    omega
  · exact .inr (bounds_of_mem behind).1

end Atoms

/-- The ranges of the elements of a text: not empty, on character boundaries (and so inside the
text), in order and disjoint. -/
structure WellFormed (text : Text) (elements : List TextElement) : Prop where
  nonempty : ∀ element ∈ elements, element.range.start < element.range.stop
  start : ∀ element ∈ elements, Offsets.IsBoundary Char.utf8Size text element.range.start
  stop : ∀ element ∈ elements, Offsets.IsBoundary Char.utf8Size text element.range.stop
  disjoint : elements.Pairwise fun element later => element.range.stop ≤ later.range.start

/-- A text with elements shows a sequence of atoms. -/
structure Shows (text : Text) (elements : List TextElement) (atoms : List Atom) : Prop where
  text : text = flatten atoms
  elements : elements = elementsFrom 0 atoms

section Shows

variable {text : Text} {elements : List TextElement} {atoms before after : List Atom}
  {element : TextElement}

theorem pairwise_elementsFrom (offset : ℕ) (atoms : List Atom) :
    (elementsFrom offset atoms).Pairwise fun element later =>
      element.range.stop ≤ later.range.start := by
  induction atoms generalizing offset with
  | nil => exact .nil
  | cons atom atoms ih =>
      cases atom with
      | char c => exact ih _
      | element id payload nonempty =>
          exact List.pairwise_cons.mpr
            ⟨fun later member => (bounds_of_mem member).1, ih (offset + len payload)⟩

theorem isBoundary_flatten (before after : List Atom) :
    Offsets.IsBoundary Char.utf8Size (flatten (before ++ after))
      (Offsets.extent Atom.size before) := by
  rw [flatten_append, extent_eq]
  exact Offsets.isBoundary_extent _ _

/-- What is between two atoms is between two characters. -/
theorem isBoundary_of_atoms {pos : ℕ} (between : Offsets.IsBoundary Atom.size atoms pos) :
    Offsets.IsBoundary Char.utf8Size (flatten atoms) pos := by
  obtain ⟨before, after, rfl, rfl⟩ := between
  exact isBoundary_flatten before after

/-- The edges of an element lie between two atoms. -/
theorem isBoundary_edges (member : element ∈ elementsFrom 0 atoms) :
    Offsets.IsBoundary Atom.size atoms element.range.start ∧
      Offsets.IsBoundary Atom.size atoms element.range.stop := by
  obtain ⟨before, payload, nonempty, after, rfl, start, stop⟩ := mem_elementsFrom.mp member
  rw [Nat.zero_add] at start stop
  refine ⟨⟨before, _, rfl, start.symm⟩,
    ⟨before ++ [.element element.id payload nonempty], after, by simp, ?_⟩⟩
  rw [stop, Offsets.extent_append, Offsets.extent_cons]
  rfl

theorem Shows.wellFormed (shown : Shows text elements atoms) : WellFormed text elements := by
  obtain ⟨rfl, rfl⟩ := shown
  refine ⟨fun element member => (bounds_of_mem member).2.1, fun element member => ?_,
    fun element member => ?_, pairwise_elementsFrom 0 atoms⟩
  · exact isBoundary_of_atoms (isBoundary_edges member).1
  · exact isBoundary_of_atoms (isBoundary_edges member).2

/-- Ranges in order cut a text into atoms. -/
theorem exists_atoms (offset : ℕ) (text : Text) (elements : List TextElement)
    (nonempty : ∀ element ∈ elements, element.range.start < element.range.stop)
    (placed : ∀ element ∈ elements, ∃ start stop,
      element.range = ⟨offset + start, offset + stop⟩ ∧
        Offsets.IsBoundary Char.utf8Size text start ∧ Offsets.IsBoundary Char.utf8Size text stop)
    (disjoint : elements.Pairwise fun element later => element.range.stop ≤ later.range.start) :
    ∃ atoms, flatten atoms = text ∧ elementsFrom offset atoms = elements := by
  induction elements generalizing offset text with
  | nil => exact ⟨chars text, flatten_chars text, elementsFrom_chars offset text⟩
  | cons element elements ih =>
      obtain ⟨⟨id, range⟩, rfl⟩ : ∃ other, other = element := ⟨element, rfl⟩
      obtain ⟨first, later⟩ := List.pairwise_cons.mp disjoint
      obtain ⟨start, stop, rfl, startStands, stopStands⟩ := placed _ List.mem_cons_self
      have ordered : offset + start < offset + stop := nonempty _ List.mem_cons_self
      obtain ⟨before, payload, rest, rfl, rfl, reaches⟩ :=
        Offsets.exists_between Char.utf8Size_pos startStands stopStands (by omega)
      have filled : payload ≠ [] := by
        rintro rfl
        rw [Offsets.extent_nil] at reaches
        omega
      -- Behind the element, the offsets are counted from its end on.
      have further : ∀ other ∈ elements, ∃ start' stop',
          other.range = ⟨offset + stop + start', offset + stop + stop'⟩ ∧
            Offsets.IsBoundary Char.utf8Size rest start' ∧
            Offsets.IsBoundary Char.utf8Size rest stop' := by
        intro other member
        obtain ⟨start', stop', range, startStands', stopStands'⟩ :=
          placed other (List.mem_cons_of_mem _ member)
        have behind := first other member
        have wide := nonempty other (List.mem_cons_of_mem _ member)
        rw [range] at behind wide
        dsimp only at behind wide
        obtain ⟨more, rfl⟩ := Nat.exists_eq_add_of_le (show stop ≤ start' by omega)
        obtain ⟨more', rfl⟩ := Nat.exists_eq_add_of_le (show stop ≤ stop' by omega)
        rw [← List.append_assoc, ← reaches, ← Offsets.extent_append] at startStands' stopStands'
        refine ⟨more, more', ?_, ?_, ?_⟩
        · rw [range, Nat.add_assoc, Nat.add_assoc]
        · exact (Offsets.isBoundary_append_iff Char.utf8Size_pos).mp startStands'
        · exact (Offsets.isBoundary_append_iff Char.utf8Size_pos).mp stopStands'
      obtain ⟨atoms, rfl, own⟩ := ih (offset + stop) rest
        (fun other member => nonempty other (List.mem_cons_of_mem _ member)) further later
      refine ⟨chars before ++ .element id payload filled :: atoms, ?_, ?_⟩
      · rw [flatten_append, flatten_chars]
        rfl
      · rw [elementsFrom_append, elementsFrom_chars, extent_chars, List.nil_append, elementsFrom]
        have front : offset + len before + len payload = offset + stop := by
          rw [Nat.add_assoc, ← reaches]
          rfl
        rw [front, own]
        rfl

/-- A text with elements is well formed exactly when it shows a sequence of atoms. -/
theorem wellFormed_iff_shows : WellFormed text elements ↔ ∃ atoms, Shows text elements atoms := by
  constructor
  · rintro ⟨nonempty, start, stop, disjoint⟩
    obtain ⟨atoms, same, own⟩ := exists_atoms 0 text elements nonempty
      (fun element member => ⟨_, _, by rw [Nat.zero_add, Nat.zero_add], start element member,
        stop element member⟩) disjoint
    exact ⟨atoms, same.symm, own.symm⟩
  · rintro ⟨atoms, shown⟩
    exact shown.wellFormed

end Shows

/-! ## Clamping positions -/

section Characters

variable {text : Text} {pos : ℕ}

theorem isCharBoundary_iff :
    isCharBoundary text pos = true ↔ Offsets.IsBoundary Char.utf8Size text pos := by
  rw [isCharBoundary, beq_iff_eq]
  exact (Offsets.isBoundary_iff Char.utf8Size_pos).symm

/-- The loop downwards finds the last boundary that is not behind the position. -/
theorem prevCharBoundary_spec (text : Text) (pos : ℕ) :
    isCharBoundary text (prevCharBoundary text pos) = true ∧ prevCharBoundary text pos ≤ pos ∧
      ∀ other, isCharBoundary text other = true → other ≤ pos →
        other ≤ prevCharBoundary text pos := by
  induction pos with
  | zero =>
      refine ⟨isCharBoundary_iff.mpr (Offsets.isBoundary_zero text), le_rfl, fun other _ le => le⟩
  | succ pos ih =>
      rw [prevCharBoundary]
      split
      case isTrue boundary => exact ⟨boundary, le_rfl, fun other _ le => le⟩
      case isFalse between =>
        obtain ⟨boundary, le, last⟩ := ih
        refine ⟨boundary, Nat.le_succ_of_le le, fun other stands within => last other stands ?_⟩
        obtain below | rfl := Nat.lt_or_eq_of_le within
        · exact Nat.le_of_lt_succ below
        · exact absurd stands between

/-- The loop upwards finds the first boundary that is not in front of the position. -/
theorem nextCharBoundary_spec (text : Text) (pos left : ℕ) (reaches : pos + left = len text) :
    isCharBoundary text (nextCharBoundary text left pos) = true ∧
      pos ≤ nextCharBoundary text left pos ∧
      ∀ other, isCharBoundary text other = true → pos ≤ other →
        nextCharBoundary text left pos ≤ other := by
  induction left generalizing pos with
  | zero =>
      obtain rfl : pos = len text := reaches
      exact ⟨isCharBoundary_iff.mpr (Offsets.isBoundary_end text), le_rfl, fun other _ le => le⟩
  | succ left ih =>
      rw [nextCharBoundary]
      split
      case isTrue boundary => exact ⟨boundary, le_rfl, fun other _ le => le⟩
      case isFalse between =>
        have further : pos + 1 + left = len text := by omega
        obtain ⟨boundary, le, first⟩ := ih _ further
        refine ⟨boundary, by omega, fun other stands within => first other stands ?_⟩
        obtain below | rfl := Nat.lt_or_eq_of_le within
        · exact below
        · exact absurd stands between

theorem le_len_of_isCharBoundary (boundary : isCharBoundary text pos = true) : pos ≤ len text :=
  Offsets.extent_le_of_isBoundary (isCharBoundary_iff.mp boundary)

/-- Every character as a grapheme of its own. -/
def Graphemes.byChar : Graphemes where
  prevBoundary text pos := .ok (if pos = 0 then none else some (prevCharBoundary text (pos - 1)))
  nextBoundary text pos :=
    .ok (if len text ≤ pos then none
      else some (nextCharBoundary text (len text - (pos + 1)) (pos + 1)))
  prev_ok := by
    intro text pos _
    refine ⟨_, rfl, fun boundary found => ?_⟩
    split at found
    · cases found
    · cases found
      obtain ⟨stands, le, -⟩ := prevCharBoundary_spec text (pos - 1)
      exact ⟨stands, le.trans (Nat.sub_le pos 1)⟩
  next_ok := by
    intro text pos _
    refine ⟨_, rfl, fun boundary found => ?_⟩
    split at found
    · cases found
    case isFalse inside =>
      cases found
      obtain ⟨stands, le, -⟩ :=
        nextCharBoundary_spec text (pos + 1) (len text - (pos + 1)) (by omega)
      exact ⟨stands, (Nat.le_succ pos).trans le⟩

theorem clampPosToCharBoundary_of_boundary (boundary : isCharBoundary text pos = true) :
    clampPosToCharBoundary text pos = pos := by
  rw [clampPosToCharBoundary, Nat.min_eq_left (le_len_of_isCharBoundary boundary)]
  exact if_pos boundary

/-- Clamping takes the nearer of the two boundaries around the position. -/
theorem clampPosToCharBoundary_eq (text : Text) (pos : ℕ) :
    clampPosToCharBoundary text pos =
      let pos := min pos (len text)
      let prev := prevCharBoundary text pos
      let next := nextCharBoundary text (len text - pos) pos
      if pos - prev ≤ next - pos then prev else next := by
  rw [clampPosToCharBoundary]
  dsimp only
  split
  case isFalse => rfl
  case isTrue boundary =>
    have within : min pos (len text) ≤ len text := Nat.min_le_right _ _
    obtain ⟨-, le, last⟩ := prevCharBoundary_spec text (min pos (len text))
    obtain ⟨-, ge, first⟩ := nextCharBoundary_spec text _ _ (Nat.add_sub_cancel' within)
    have same := last _ boundary le_rfl
    have same' := first _ boundary le_rfl
    rw [if_pos (by omega)]
    omega

theorem isCharBoundary_clampPosToCharBoundary (text : Text) (pos : ℕ) :
    isCharBoundary text (clampPosToCharBoundary text pos) = true := by
  have within : min pos (len text) ≤ len text := Nat.min_le_right _ _
  rw [clampPosToCharBoundary_eq]
  dsimp only
  split
  · exact (prevCharBoundary_spec text _).1
  · exact (nextCharBoundary_spec text _ _ (Nat.add_sub_cancel' within)).1

/-- Clamping keeps the order of positions. -/
theorem clampPosToCharBoundary_mono (text : Text) : Monotone (clampPosToCharBoundary text) := by
  intro first second ordered
  rw [clampPosToCharBoundary_eq, clampPosToCharBoundary_eq]
  have le : min first (len text) ≤ min second (len text) := min_le_min_right _ ordered
  generalize atFirst : min first (len text) = first at le ⊢
  generalize atSecond : min second (len text) = second at le ⊢
  have within : second ≤ len text := atSecond ▸ Nat.min_le_right _ _
  obtain ⟨prevStands, prevLe, prevLast⟩ := prevCharBoundary_spec text first
  obtain ⟨prevStands', prevLe', prevLast'⟩ := prevCharBoundary_spec text second
  obtain ⟨nextStands, nextGe, nextFirst⟩ :=
    nextCharBoundary_spec text _ _ (Nat.add_sub_cancel' (le.trans within))
  obtain ⟨nextStands', nextGe', nextFirst'⟩ :=
    nextCharBoundary_spec text _ _ (Nat.add_sub_cancel' within)
  dsimp only
  generalize prevCharBoundary text first = prev at *
  generalize prevCharBoundary text second = prev' at *
  generalize nextCharBoundary text (len text - first) first = next at *
  generalize nextCharBoundary text (len text - second) second = next' at *
  -- The second position is behind the first boundary above the first position, or in the same gap.
  have prevs : prev ≤ prev' := prevLast' prev prevStands (prevLe.trans le)
  have nexts : next ≤ next' := nextFirst next' nextStands' (le.trans nextGe')
  obtain apart | together := Nat.lt_or_ge second next |>.symm
  · have passed : next ≤ prev' := prevLast' next nextStands apart
    split <;> split <;> omega
  · have samePrev : prev' ≤ prev := by
      obtain behind | ahead := Nat.lt_or_ge first prev'
      · have := nextFirst prev' prevStands' behind.le
        omega
      · exact prevLast prev' prevStands' ahead
    have sameNext : next' ≤ next := nextFirst' next nextStands (by omega)
    split <;> split <;> omega

end Characters

section Elements

variable {area : TextArea} {atoms : List Atom} {elements : List TextElement} {element : TextElement}
  {pos start stop : ℕ}

theorem of_findElementContaining (found : findElementContaining elements pos = some element) :
    element ∈ elements ∧ element.range.start < pos ∧ pos < element.range.stop :=
  ⟨List.mem_of_find?_eq_some found, by simpa using List.find?_some found⟩

theorem of_findElementContaining_eq_none (missed : findElementContaining elements pos = none)
    (member : element ∈ elements) : element.range.stop ≤ pos ∨ pos ≤ element.range.start := by
  have outside := List.find?_eq_none.mp missed element member
  simp only [Bool.and_eq_true, decide_eq_true_eq] at outside
  omega

theorem isCharBoundary_of_atoms {text : Text} (shown : Shows text elements atoms)
    (between : Offsets.IsBoundary Atom.size atoms pos) : isCharBoundary text pos = true := by
  rw [isCharBoundary_iff, shown.text]
  exact isBoundary_of_atoms between

variable (shown : Shows area.text area.elements atoms)

include shown

/-- A character boundary that no element has inside lies between two atoms. -/
theorem isBoundary_of_findElementContaining_eq_none
    (boundary : isCharBoundary area.text pos = true)
    (missed : findElementContaining area.elements pos = none) :
    Offsets.IsBoundary Atom.size atoms pos := by
  have stands := isCharBoundary_iff.mp boundary
  rw [shown.text] at stands
  obtain between | ⟨element, member, inside⟩ := isBoundary_or_inside 0 stands
  · exact between
  · rw [← shown.elements] at member
    have outside := of_findElementContaining_eq_none missed member
    omega

theorem findElementContaining_eq_none (between : Offsets.IsBoundary Atom.size atoms pos) :
    findElementContaining area.elements pos = none := by
  refine List.find?_eq_none.mpr fun element member => ?_
  rw [shown.elements] at member
  have outside := not_inside between member
  simp only [Bool.and_eq_true, decide_eq_true_eq]
  omega

/-- The edges of the elements. -/
theorem isBoundary_of_mem (member : element ∈ area.elements) :
    Offsets.IsBoundary Atom.size atoms element.range.start ∧
      Offsets.IsBoundary Atom.size atoms element.range.stop := by
  rw [shown.elements] at member
  exact isBoundary_edges member

/-- A position is clamped to a place between two atoms. -/
theorem isBoundary_clampPosOutside (pos : ℕ) :
    Offsets.IsBoundary Atom.size atoms (area.clampPosOutside pos) := by
  have boundary := isCharBoundary_clampPosToCharBoundary area.text pos
  rw [TextArea.clampPosOutside]
  split
  case h_1 element found =>
    obtain ⟨first, last⟩ := isBoundary_of_mem shown (of_findElementContaining found).1
    split
    · rw [clampPosToCharBoundary_of_boundary (isCharBoundary_of_atoms shown first)]
      exact first
    · rw [clampPosToCharBoundary_of_boundary (isCharBoundary_of_atoms shown last)]
      exact last
  case h_2 missed => exact isBoundary_of_findElementContaining_eq_none shown boundary missed

/-- A place between two atoms stays where it is. -/
theorem clampPosOutside_of_isBoundary (between : Offsets.IsBoundary Atom.size atoms pos) :
    area.clampPosOutside pos = pos := by
  have boundary := isCharBoundary_of_atoms shown between
  rw [TextArea.clampPosOutside, clampPosToCharBoundary_of_boundary boundary,
    findElementContaining_eq_none shown between]

theorem isBoundary_adjustPosOutOfElements (preferStart : Bool)
    (boundary : isCharBoundary area.text pos = true) :
    Offsets.IsBoundary Atom.size atoms (area.adjustPosOutOfElements pos preferStart) := by
  rw [TextArea.adjustPosOutOfElements]
  split
  case h_1 element found =>
    obtain ⟨first, last⟩ := isBoundary_of_mem shown (of_findElementContaining found).1
    split
    · exact first
    · exact last
  case h_2 missed => exact isBoundary_of_findElementContaining_eq_none shown boundary missed

omit shown in
theorem adjustPosOutOfElements_le : area.adjustPosOutOfElements pos true ≤ pos := by
  rw [TextArea.adjustPosOutOfElements]
  split
  case h_1 element found =>
    obtain ⟨-, before, -⟩ := of_findElementContaining found
    exact before.le
  case h_2 => exact le_rfl

omit shown in
theorem le_adjustPosOutOfElements : pos ≤ area.adjustPosOutOfElements pos false := by
  rw [TextArea.adjustPosOutOfElements]
  split
  case h_1 element found =>
    obtain ⟨-, -, behind⟩ := of_findElementContaining found
    exact behind.le
  case h_2 => exact le_rfl

/-- Going back from a character boundary leads to a character boundary. -/
theorem prevAtomicBoundary_spec (graphemes : Graphemes)
    (boundary : isCharBoundary area.text pos = true) :
    isCharBoundary area.text (area.prevAtomicBoundary graphemes pos) = true ∧
      area.prevAtomicBoundary graphemes pos ≤ pos := by
  have zero : isCharBoundary area.text 0 = true :=
    isCharBoundary_iff.mpr (Offsets.isBoundary_zero _)
  rw [TextArea.prevAtomicBoundary]
  split
  · exact ⟨zero, Nat.zero_le pos⟩
  · split
    case h_1 element found =>
      have first := (isBoundary_of_mem shown (List.mem_of_find?_eq_some found)).1
      have touches := List.find?_some found
      simp only [Bool.and_eq_true, decide_eq_true_eq] at touches
      exact ⟨isCharBoundary_of_atoms shown first, touches.1.le⟩
    case h_2 =>
      obtain ⟨found, segmented, sound⟩ := graphemes.prev_ok area.text pos boundary
      rw [segmented]
      cases found with
      | none => exact ⟨zero, Nat.zero_le pos⟩
      | some target =>
          obtain ⟨stands, le⟩ := sound target rfl
          dsimp only
          split
          case h_1 element found =>
            obtain ⟨member, before, -⟩ := of_findElementContaining found
            exact ⟨isCharBoundary_of_atoms shown (isBoundary_of_mem shown member).1, by omega⟩
          case h_2 => exact ⟨stands, le⟩

/-- Going on from a character boundary leads to a character boundary. -/
theorem nextAtomicBoundary_spec (graphemes : Graphemes)
    (boundary : isCharBoundary area.text pos = true) :
    isCharBoundary area.text (area.nextAtomicBoundary graphemes pos) = true ∧
      pos ≤ area.nextAtomicBoundary graphemes pos := by
  have within := le_len_of_isCharBoundary boundary
  have atEnd : isCharBoundary area.text (len area.text) = true :=
    isCharBoundary_iff.mpr (Offsets.isBoundary_end _)
  rw [TextArea.nextAtomicBoundary]
  split
  · exact ⟨atEnd, within⟩
  · split
    case h_1 element found =>
      have last := (isBoundary_of_mem shown (List.mem_of_find?_eq_some found)).2
      have touches := List.find?_some found
      simp only [Bool.and_eq_true, decide_eq_true_eq] at touches
      exact ⟨isCharBoundary_of_atoms shown last, touches.2.le⟩
    case h_2 =>
      obtain ⟨found, segmented, sound⟩ := graphemes.next_ok area.text pos boundary
      rw [segmented]
      cases found with
      | none => exact ⟨atEnd, within⟩
      | some target =>
          obtain ⟨stands, le⟩ := sound target rfl
          dsimp only
          split
          case h_1 element found =>
            obtain ⟨member, -, behind⟩ := of_findElementContaining found
            exact ⟨isCharBoundary_of_atoms shown (isBoundary_of_mem shown member).2, by omega⟩
          case h_2 => exact ⟨stands, le⟩

end Elements

section Expanding

open Overlaps

variable {area : TextArea} {atoms : List Atom} {elements : List TextElement} {start stop : ℕ}
  {range target : ByteRange}

/-- The ranges of the elements. -/
def ranges (elements : List TextElement) : List ByteRange := elements.map TextElement.range

theorem expandStep_fst (state : ByteRange × Bool) (element : TextElement) :
    (expandStep state element).1 = state.1.absorb element.range := by
  by_cases touches : element.range.start < state.1.stop ∧ state.1.start < element.range.stop
  · have touches' : element.range.Touches state.1 := touches
    rw [expandStep, if_pos touches, Interval.absorb, if_pos touches']
    dsimp only
    split
    · rfl
    case isFalse same =>
      obtain ⟨start, stop⟩ := not_or.mp same
      exact (congrArg₂ Interval.mk (not_not.mp start) (not_not.mp stop)).symm
  · have touches' : ¬element.range.Touches state.1 := touches
    rw [expandStep, if_neg touches, Interval.absorb, if_neg touches']

theorem foldl_expandStep_fst (state : ByteRange × Bool) :
    (elements.foldl expandStep state).1 = (ranges elements).foldl Interval.absorb state.1 := by
  induction elements generalizing state with
  | nil => rfl
  | cons element elements ih =>
      exact (ih _).trans (by rw [expandStep_fst]; rfl)

/-- A round changes nothing once the range holds whatever touches it. -/
theorem expandRound_of_closed (closed : Closed (ranges elements) target) :
    expandRound elements target = (target, false) := by
  have still : ∀ element ∈ elements, expandStep (target, false) element = (target, false) := by
    intro element member
    rw [expandStep]
    dsimp only
    split
    case isTrue touches =>
      have within := closed element.range (List.mem_map_of_mem member) touches
      rw [if_neg]
      rw [Nat.min_eq_left within.1, Nat.max_eq_left within.2]
      simp
    case isFalse => rfl
  rw [expandRound]
  clear closed
  induction elements with
  | nil => rfl
  | cons element elements ih =>
      obtain ⟨own, rest⟩ := List.forall_mem_cons.mp still
      rw [List.foldl_cons, own]
      exact ih rest

theorem expandLoop_of_closed (closed : Closed (ranges elements) target) (rounds : ℕ) :
    expandLoop elements rounds target = target := by
  cases rounds with
  | zero => rfl
  | succ rounds => rw [expandLoop, expandRound_of_closed closed]

/-- The loop widens the range in one round and sees in the next one that nothing is left to do. -/
theorem expandLoop_eq (isWidened : IsWidened (ranges elements) range target) (rounds : ℕ) :
    expandLoop elements (rounds + 1) range = target := by
  have first : (expandRound elements range).1 = target :=
    (foldl_expandStep_fst _).trans (foldl_absorb_eq isWidened)
  rw [expandLoop]
  split
  case h_1 wider changed =>
    rw [changed] at first
    rw [show wider = target from first]
    exact expandLoop_of_closed isWidened.closed rounds
  case h_2 same unchanged =>
    rw [unchanged] at first
    exact first

theorem expandRangeToElementBoundaries_eq (isWidened : IsWidened (ranges elements) range target) :
    expandRangeToElementBoundaries elements range = target :=
  expandLoop_eq isWidened (elements.length + 1)

variable (shown : Shows area.text area.elements atoms)

include shown

/-- A range is widened to the edges of the elements that have an end of it inside. -/
theorem isWidened_adjusted (first : isCharBoundary area.text start = true)
    (last : isCharBoundary area.text stop = true) (ordered : start ≤ stop) :
    IsWidened (ranges area.elements) ⟨start, stop⟩
      ⟨area.adjustPosOutOfElements start true, area.adjustPosOutOfElements stop false⟩ where
  around := ⟨adjustPosOutOfElements_le, le_adjustPosOutOfElements⟩
  closed := by
    intro interval inRanges touches
    obtain ⟨element, member, rfl⟩ := List.mem_map.mp inRanges
    rw [shown.elements] at member
    have before := not_inside (isBoundary_adjustPosOutOfElements shown true first) member
    have behind := not_inside (isBoundary_adjustPosOutOfElements shown false last) member
    obtain ⟨below, above⟩ := touches
    dsimp only at below above
    exact ⟨by dsimp only; omega, by dsimp only; omega⟩
  start := by
    dsimp only
    rw [TextArea.adjustPosOutOfElements]
    split
    case h_1 element found =>
      obtain ⟨member, before, behind⟩ := of_findElementContaining found
      exact .inr ⟨element.range, List.mem_map_of_mem member, ⟨before.trans_le ordered, behind⟩, rfl⟩
    case h_2 => exact .inl rfl
  stop := by
    dsimp only
    rw [TextArea.adjustPosOutOfElements]
    split
    case h_1 element found =>
      obtain ⟨member, before, behind⟩ := of_findElementContaining found
      exact .inr ⟨element.range, List.mem_map_of_mem member, ⟨before, ordered.trans_lt behind⟩, rfl⟩
    case h_2 => exact .inl rfl

/-- The range with the elements that it touches, between two atoms. -/
theorem expandRange_spec (first : isCharBoundary area.text start = true)
    (last : isCharBoundary area.text stop = true) (ordered : start ≤ stop) :
    ∃ start' stop',
      expandRangeToElementBoundaries area.elements ⟨start, stop⟩ = ⟨start', stop'⟩ ∧
        Interval.widened (ranges area.elements) ⟨start, stop⟩ = ⟨start', stop'⟩ ∧
        start' ≤ start ∧ stop ≤ stop' ∧
        Offsets.IsBoundary Atom.size atoms start' ∧ Offsets.IsBoundary Atom.size atoms stop' := by
  have isWidened := isWidened_adjusted shown first last ordered
  exact ⟨_, _, expandRangeToElementBoundaries_eq isWidened, widened_eq isWidened,
    isWidened.around.1, isWidened.around.2, isBoundary_adjustPosOutOfElements shown true first,
    isBoundary_adjustPosOutOfElements shown false last⟩

end Expanding

end CodexPilot.Composer
