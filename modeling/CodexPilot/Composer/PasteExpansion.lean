import CodexPilot.Composer.PendingPastes
import Mathlib.Data.Nat.Digits.Defs

/-!
# Two ways of expanding large pastes

A draft is typed and pasted into, and no paste is deleted.  The text for the external editor comes
from one replacement of every label in the whole text, and the text for submission from the
elements.  They are the same exactly when every label, in the order of the pastes, occurs only once
in the text with the earlier pastes put in.
-/

namespace CodexPilot.Composer

open RustStd Transitions Replacing

/-! ## Labels -/

section Labels

variable {charCount charCount' suffix suffix' : ℕ}

theorem notMem_toDigits {c : Char} (other : c.isDigit = false) (number : ℕ) :
    c ∉ Nat.toDigits 10 number := by
  intro member
  have digit := Nat.isDigit_of_mem_toDigits (by decide) (by decide) member
  rw [other] at digit
  cases digit

theorem takeWhile_toDigits (number : ℕ) (rest : Text) :
    (Nat.toDigits 10 number ++ ' ' :: rest).takeWhile Char.isDigit = Nat.toDigits 10 number := by
  have digits : ∀ c ∈ Nat.toDigits 10 number, c.isDigit = true := fun c member =>
    Nat.isDigit_of_mem_toDigits (by decide) (by decide) member
  rw [List.takeWhile_append_of_pos digits, List.takeWhile_cons_of_neg (by decide), List.append_nil]

theorem le_ofDigitChars (digits : Text) (number : ℕ) :
    number ≤ Nat.ofDigitChars 10 digits number := by
  induction digits generalizing number with
  | nil => exact le_rfl
  | cons digit digits ih =>
      rw [Nat.ofDigitChars_cons]
      exact le_trans (by omega) (ih _)

/-- Of two numbers, the one whose digits begin the other one is not greater. -/
theorem le_of_toDigits_prefix {number number' : ℕ}
    (begins : Nat.toDigits 10 number <+: Nat.toDigits 10 number') : number ≤ number' := by
  obtain ⟨rest, whole⟩ := begins
  calc
    number ≤ Nat.ofDigitChars 10 rest number := le_ofDigitChars rest number
    _ = Nat.ofDigitChars 10 (Nat.toDigits 10 number ++ rest) 0 := by
      rw [Nat.ofDigitChars_append, Nat.ofDigitChars_ten_toDigits]
    _ = number' := by rw [whole, Nat.ofDigitChars_ten_toDigits]

/-- The label behind the character count. -/
def labelEnd (suffix : ℕ) : Text :=
  if suffix = 1 then [] else " #".toList ++ Nat.toDigits 10 suffix

theorem largePasteLabel_eq (charCount suffix : ℕ) :
    largePasteLabel charCount suffix =
      "[Pasted Content ".toList ++
        (Nat.toDigits 10 charCount ++ ' ' :: ("chars]".toList ++ labelEnd suffix)) := by
  rw [largePasteLabel, labelEnd]
  split
  · rw [List.append_nil]
    rfl
  · rw [List.append_assoc, List.append_assoc]
    rfl

/-- A label begins with a bracket that does not come again. -/
theorem opens_largePasteLabel (charCount suffix : ℕ) :
    Opens '[' (largePasteLabel charCount suffix) := by
  rw [largePasteLabel_eq]
  refine ⟨rfl, ?_⟩
  have first := notMem_toDigits (show '['.isDigit = false by decide) charCount
  have last := notMem_toDigits (show '['.isDigit = false by decide) suffix
  rw [labelEnd]
  split <;> simp [first, last]

theorem le_of_labelEnd_prefix (positive : 0 < suffix')
    (begins : labelEnd suffix <+: labelEnd suffix') : suffix ≤ suffix' := by
  rw [labelEnd, labelEnd] at begins
  split at begins
  case isTrue first => omega
  case isFalse later =>
    split at begins
    case isTrue => exact absurd (List.prefix_nil.mp begins) (by simp)
    case isFalse => exact le_of_toDigits_prefix ((List.prefix_append_right_inj _).mp begins)

/-- Only labels for as many characters begin each other, in the order of their numbers. -/
theorem le_of_opening_label (positive : 0 < suffix')
    (begins : largePasteLabel charCount suffix <+: largePasteLabel charCount' suffix') :
    charCount = charCount' ∧ suffix ≤ suffix' := by
  rw [largePasteLabel_eq, largePasteLabel_eq, List.prefix_append_right_inj] at begins
  obtain ⟨rest, whole⟩ := begins
  rw [List.append_assoc, List.cons_append] at whole
  have digits := congrArg (List.takeWhile Char.isDigit) whole
  rw [takeWhile_toDigits, takeWhile_toDigits] at digits
  obtain rfl : charCount = charCount' := by
    calc
      charCount = Nat.ofDigitChars 10 (Nat.toDigits 10 charCount) 0 :=
        Nat.ofDigitChars_ten_toDigits.symm
      _ = Nat.ofDigitChars 10 (Nat.toDigits 10 charCount') 0 := by rw [digits]
      _ = charCount' := Nat.ofDigitChars_ten_toDigits
  rw [List.append_cancel_left_eq, List.cons.injEq, List.append_assoc,
    List.append_cancel_left_eq] at whole
  exact ⟨rfl, le_of_labelEnd_prefix positive ⟨rest, whole.2⟩⟩

/-- The label is shorter than the paste. -/
theorem length_largePasteLabel_lt (large : largePasteCharThreshold < charCount)
    (bounded : suffix ≤ u64Max) : (largePasteLabel charCount suffix).length < charCount := by
  have countDigits : (Nat.toDigits 10 charCount).length ≤ charCount / 2 + 1 := by
    refine (Nat.length_toDigits_le_iff (by decide) (Nat.succ_pos _)).mpr ?_
    have half : charCount / 2 + 1 ≤ 2 ^ (charCount / 2) := Nat.lt_two_pow_self
    calc charCount < 2 * (charCount / 2 + 1) := by omega
      _ ≤ 2 * 2 ^ (charCount / 2) := Nat.mul_le_mul_left 2 half
      _ = 2 ^ (charCount / 2 + 1) := by rw [pow_succ, Nat.mul_comm]
      _ ≤ 10 ^ (charCount / 2 + 1) := Nat.pow_le_pow_left (by decide) _
  have suffixDigits : (Nat.toDigits 10 suffix).length ≤ 20 := by
    refine (Nat.length_toDigits_le_iff (by decide) (by decide)).mpr ?_
    exact lt_of_le_of_lt bounded (by decide)
  have endLength : (labelEnd suffix).length ≤ 22 := by
    rw [labelEnd]
    split
    · exact Nat.zero_le _
    · rw [List.length_append]
      change 2 + _ ≤ 22
      omega
  have start : "[Pasted Content ".toList.length = 16 := rfl
  have middle : "chars]".toList.length = 6 := rfl
  rw [largePasteCharThreshold] at large
  rw [largePasteLabel_eq, List.length_append, List.length_append, List.length_cons,
    List.length_append, start, middle]
  omega

end Labels

/-! ## Drafting -/

/-- What happens to a draft. -/
inductive DraftEvent where
  | edit (op : Op)
  | paste (pasted : Text)

/-- The operations that typing asks for: they edit text or move the cursor. -/
def Op.Types : Op → Prop
  | .insertElement _ | .replaceElementPayload _ _ | .addElementRange _ | .removeElementRange _
  | .setTextClearingElements _ | .setTextWithElements _ _ => False
  | _ => True

namespace Draft

variable (graphemes : Graphemes)

/-- An event is a step. -/
def step (draft : Draft) : DraftEvent → Option Draft
  | .edit op =>
      some
        { draft with textarea := op.apply graphemes draft.textarea }
  | .paste pasted => draft.handlePaste pasted

/-- A paste, or typing that leaves every element in the text. -/
def Drafting (draft : Draft) : DraftEvent → Prop
  | .edit op =>
      op.Types ∧ op.Allowed draft.textarea ∧
        ∀ element ∈ draft.textarea.elements, op.keeps graphemes draft.textarea element = true
  | .paste _ => True

/-- What every draft keeps: one element for every paste, and labels whose numbers grow. -/
structure Drafted (draft : Draft) : Prop where
  sound : Sound draft.textarea
  labels : ((labelled draft.textarea.text draft.textarea.elements).map Prod.snd).Perm
    (draft.pendingPastes.map Prod.fst)
  pastes : ∀ paste ∈ draft.pendingPastes, largePasteCharThreshold < paste.2.length ∧
    ∃ suffix, 0 < suffix ∧ suffix ≤ u64Max ∧ suffix ≤ draft.largePasteCounters paste.2.length ∧
      paste.1 = largePasteLabel paste.2.length suffix
  ordered : draft.pendingPastes.Pairwise fun paste later => ¬later.1 <+: paste.1

end Draft

section Drafting

variable {graphemes : Graphemes} {draft next : Draft} {area after : TextArea} {op : Op}
  {range : ByteRange} {inserted : Text}

/-- Inserting leaves every element. -/
theorem labelled_of_insertion {start : ℕ} (edited : Edited area ⟨start, start⟩ inserted after) :
    labelled after.text after.elements = labelled area.text area.elements := by
  obtain ⟨front, middle, back, before, place, behind⟩ := edited.atoms
  have none : Offsets.extent Atom.size middle = 0 := by
    injection place with first last
    omega
  obtain rfl := Offsets.eq_nil_of_extent_eq_zero Atom.size_pos none
  have noLabel : (chars inserted).filterMap Atom.label = [] := by
    rw [chars, List.filterMap_map]
    exact List.filterMap_eq_nil_iff.mpr fun c _ => rfl
  rw [labelled_of_shows before, labelled_of_shows behind, List.filterMap_append,
    List.filterMap_append, List.filterMap_append, noLabel, List.nil_append]
  rfl

/-- A new element shows its text. -/
theorem labelled_insertElement (sound : Sound area) (text : Text) :
    ((labelled (area.insertElement text).text (area.insertElement text).elements).map
      Prod.snd).Perm ((labelled area.text area.elements).map Prod.snd ++ [text]) := by
  have edited := edited_insertElement sound text
  have labels := (labelled_addElement
    (area.insertStrAt (area.clampPosForInsertion area.cursorPos) text)
    ⟨area.clampPosForInsertion area.cursorPos,
      area.clampPosForInsertion area.cursorPos + len text⟩).map Prod.snd
  have own : slice (area.insertStrAt (area.clampPosForInsertion area.cursorPos) text).text
      ⟨area.clampPosForInsertion area.cursorPos,
        area.clampPosForInsertion area.cursorPos + len text⟩ = text := by
    obtain ⟨front, middle, back, -, place, behind⟩ := edited.atoms
    injection place with first
    rw [behind.text, flatten_append, flatten_append, flatten_chars, first, extent_eq]
    exact slice_append _ _ _
  rw [List.map_append, labelled_of_insertion edited] at labels
  exact labels.trans (List.Perm.of_eq (by rw [List.map_singleton, own]))

/-- Typing leaves the elements that it keeps, and makes no new ones. -/
theorem labelled_apply_of_types (sound : Sound area) (types : op.Types) (allowed : op.Allowed area)
    (kept : ∀ element ∈ area.elements, op.keeps graphemes area element = true) :
    labelled (op.apply graphemes area).text (op.apply graphemes area).elements =
      labelled area.text area.elements := by
  obtain ⟨atoms, shown⟩ := wellFormed_iff_shows.mp sound.wellFormed
  have kind : ¬op.Rewrites := by cases op <;> simp_all [Op.Types, Op.Rewrites]
  have plain : ∀ text, op ≠ .insertElement text := by rintro text rfl; exact types
  have unmarked : ∀ range, op ≠ .addElementRange range := by rintro range rfl; exact types
  have unremoved : ∀ range, op ≠ .removeElementRange range := by rintro range rfl; exact types
  cases asked : op.asks graphemes area with
  | none =>
      obtain same | ⟨pos, moved⟩ := unchanged_of_asks kind unmarked unremoved asked
      · rw [same]
      · rw [moved]
        rfl
  | some wanted =>
      obtain ⟨range, inserted⟩ := wanted
      have edited := edited_of_asks shown sound.cursor graphemes allowed plain asked
      rw [edited.labelled_eq, ← keeps_of_asks unremoved asked, List.filter_eq_self.mpr kept]

namespace Draft

theorem drafted_start (counters : ℕ → ℕ) : Drafted (start counters) where
  sound := sound_new
  labels := .nil
  pastes := List.forall_mem_nil _
  ordered := .nil

/-- A paste is inserted as text, or as an element with a label. -/
theorem handlePaste_cases {pasted : Text} (stepped : draft.handlePaste pasted = some next) :
    next = { draft with textarea := draft.textarea.insertStr (normalizeLineEnds pasted) } ∨
      ∃ payload suffix, largePasteCharThreshold < payload.length ∧
        suffix = draft.largePasteCounters payload.length + 1 ∧ suffix ≤ u64Max ∧
        next =
          { textarea := draft.textarea.insertElement (largePasteLabel payload.length suffix)
            pendingPastes :=
              draft.pendingPastes ++ [(largePasteLabel payload.length suffix, payload)]
            largePasteCounters :=
              Function.update draft.largePasteCounters payload.length suffix } := by
  rw [handlePaste] at stepped
  split at stepped
  case isTrue large =>
    rw [nextLargePastePlaceholder] at stepped
    dsimp only at stepped
    split at stepped
    case isTrue => cases stepped
    case isFalse numbered =>
      cases stepped
      exact .inr ⟨normalizeLineEnds pasted, _, large, rfl, Nat.le_of_not_lt numbered, rfl⟩
  case isFalse =>
    cases stepped
    exact .inl rfl

/-- Every step of drafting keeps a draft in order. -/
theorem Drafted.step (drafted : Drafted draft) {event : DraftEvent}
    (drafting : Drafting graphemes draft event) (stepped : draft.step graphemes event = some next) :
    Drafted next := by
  cases event with
  | edit op =>
      obtain ⟨types, allowed, kept⟩ := drafting
      cases stepped
      refine ⟨drafted.sound.apply allowed, ?_, drafted.pastes, drafted.ordered⟩
      rw [labelled_apply_of_types drafted.sound types allowed kept]
      exact drafted.labels
  | paste pasted =>
      obtain rfl | ⟨payload, suffix, large, number, bounded, rfl⟩ := handlePaste_cases stepped
      · obtain ⟨atoms, shown⟩ := wellFormed_iff_shows.mp drafted.sound.wellFormed
        have edited := edited_insertStrAt shown drafted.sound.cursor draft.textarea.cursorPos
          (normalizeLineEnds pasted)
        refine ⟨edited.sound drafted.sound, ?_, drafted.pastes, drafted.ordered⟩
        exact (labelled_of_insertion edited).symm ▸ drafted.labels
      · have nonempty : largePasteLabel payload.length suffix ≠ [] :=
          (opens_largePasteLabel _ _).ne_nil
        refine ⟨drafted.sound.insertElement nonempty, ?_, ?_, ?_⟩
        · refine (labelled_insertElement drafted.sound _).trans ?_
          rw [List.map_append]
          exact drafted.labels.append_right _
        · intro paste member
          obtain old | new := List.mem_append.mp member
          · obtain ⟨long, own, positive, small, counted, label⟩ := drafted.pastes paste old
            refine ⟨long, own, positive, small, ?_, label⟩
            dsimp only
            by_cases same : paste.2.length = payload.length
            · rw [same, Function.update_self]
              rw [same] at counted
              omega
            · rwa [Function.update_of_ne same]
          · obtain rfl := List.mem_singleton.mp new
            refine ⟨large, suffix, by omega, bounded, ?_, rfl⟩
            dsimp only
            rw [Function.update_self]
        · refine List.pairwise_append.mpr
            ⟨drafted.ordered, List.pairwise_singleton _ _, fun paste old later new begins => ?_⟩
          obtain rfl := List.mem_singleton.mp new
          obtain ⟨-, own, positive, -, counted, label⟩ := drafted.pastes paste old
          -- The new number is greater than the ones before.
          rw [label] at begins
          obtain ⟨same, reached⟩ := le_of_opening_label positive begins
          rw [← same] at counted
          omega

/-- In every run from an empty draft, the pastes have one element each. -/
theorem drafted_of_run {counters : ℕ → ℕ} {events : List DraftEvent}
    (along : Along (Draft.step graphemes) (Drafting graphemes) (start counters) events)
    (ran : run (Draft.step graphemes) (start counters) events = some draft) : Drafted draft :=
  invariant_of_run (fun _ _ _ drafted drafting stepped => drafted.step drafting stepped)
    (drafted_start counters) along ran

end Draft

end Drafting

/-! ## The two expansions -/

/-- The text behind a place, with some pastes in place of the elements that show their labels. -/
def inlinedFrom (pastes : List (Text × Text)) (text : Text) : ℕ → List ByteRange → Text
  | cursor, [] => onward text cursor
  | cursor, range :: ranges =>
      slice text ⟨cursor, range.start⟩ ++
        ((pastes.lookup (slice text range)).getD (slice text range) ++
          inlinedFrom pastes text range.stop ranges)

/-- The text of a draft with some pastes put in. -/
def Draft.withPastes (draft : Draft) (pastes : List (Text × Text)) : Text :=
  inlinedFrom pastes draft.textarea.text 0 (draft.textarea.elements.map TextElement.range)

namespace Cut

variable {cuts : List Cut}

/-- Elements as labels in a text. -/
def marks (cuts : List Cut) : List (Text × Text) := cuts.map fun cut => (cut.gap, cut.payload)

theorem joined_marks (cuts : List Cut) (tail : Text) :
    Replacing.joined (marks cuts) tail = joined cuts tail := by
  induction cuts with
  | nil => rfl
  | cons cut cuts ih =>
      rw [marks, List.map_cons, ← marks, Replacing.joined_cons, ih, joined_cons]

theorem inlinedFrom_marks (pastes : List (Text × Text)) (front : Text) (cuts : List Cut)
    (tail : Text) :
    inlinedFrom pastes (front ++ joined cuts tail) (len front)
        ((elementsFrom (len front) cuts).map UserTextElement.byteRange) =
      inlined pastes (marks cuts) tail := by
  induction cuts generalizing front with
  | nil => exact Offsets.back_append Char.utf8Size_pos front tail
  | cons cut cuts ih =>
      have later := ih (front ++ (cut.gap ++ cut.payload))
      have whole : front ++ (cut.gap ++ cut.payload) ++ joined cuts tail =
          front ++ joined (cut :: cuts) tail := by simp
      rw [whole, len_append, len_append, ← Nat.add_assoc] at later
      have between := slice_append front cut.gap (cut.payload ++ joined cuts tail)
      have own := slice_append (front ++ cut.gap) cut.payload (joined cuts tail)
      rw [len_append, List.append_assoc] at own
      rw [elementsFrom, List.map_cons, inlinedFrom, later]
      dsimp only
      rw [joined_cons, between, own]
      rfl

/-- Elements with different labels each take the first payload of their label. -/
theorem taking_of_nodup {pending : Text → List Text} (distinct : (cuts.map label).Nodup) :
    taking pending cuts = cuts.map fun cut => (cut, (pending cut.label).head?) := by
  induction cuts generalizing pending with
  | nil => rfl
  | cons cut cuts ih =>
      obtain ⟨fresh, distinct⟩ := List.nodup_cons.mp distinct
      rw [taking]
      cases taken : pending cut.label with
      | nil =>
          rw [List.map_cons, taken]
          exact congrArg _ (ih distinct)
      | cons actual later =>
          rw [List.map_cons, taken]
          refine congrArg (List.cons (cut, some actual)) ((ih distinct).trans ?_)
          refine List.map_congr_left fun other member => ?_
          have apart : other.label ≠ cut.label := fun same =>
            fresh (same ▸ List.mem_map_of_mem member)
          rw [Function.update_of_ne apart]

theorem head?_indexByPlaceholder (pendingPastes : List (Text × Text)) (placeholder : Text) :
    (indexByPlaceholder pendingPastes placeholder).head? = pendingPastes.lookup placeholder := by
  induction pendingPastes with
  | nil => rfl
  | cons paste pendingPastes ih =>
      rw [indexByPlaceholder, List.filter_cons, List.lookup_cons]
      by_cases same : paste.1 = placeholder
      · simp [same]
      · have other : placeholder ≠ paste.1 := fun same' => same same'.symm
        rw [if_neg (by simpa using same), beq_false_of_ne other]
        exact ih

/-- Where every label is shown once, submission puts every paste in where it stands. -/
theorem filled_taking (pendingPastes : List (Text × Text)) (cuts : List Cut) (tail : Text)
    (shows : ∀ cut ∈ cuts, cut.label = cut.payload) (distinct : (cuts.map payload).Nodup) :
    filled (taking (indexByPlaceholder pendingPastes) cuts) tail =
      inlined pendingPastes (marks cuts) tail := by
  have same : cuts.map label = cuts.map payload := List.map_congr_left shows
  rw [taking_of_nodup (same ▸ distinct)]
  clear same distinct
  induction cuts with
  | nil => rfl
  | cons cut cuts ih =>
      obtain ⟨first, later⟩ := List.forall_mem_cons.mp shows
      have rest := ih later
      have own := head?_indexByPlaceholder pendingPastes cut.payload
      rw [← first] at own
      rw [marks, List.map_cons, List.map_cons, own, first]
      exact congrArg (fun rest => cut.gap ++
        ((pendingPastes.lookup cut.payload).getD cut.payload ++ rest)) rest

end Cut

namespace Draft

variable {graphemes : Graphemes} {draft : Draft} {counters : ℕ → ℕ} {events : List DraftEvent}

/-- The elements cut a draft. -/
theorem Drafted.exists_cuts (drafted : Drafted draft) :
    ∃ cuts tail, draft.textarea.text = Cut.joined cuts tail ∧
      draft.textarea.textElements = Cut.elementsFrom 0 cuts ∧
      (cuts.map Cut.payload).Perm (draft.pendingPastes.map Prod.fst) ∧
      ∀ cut ∈ cuts, cut.label = cut.payload := by
  obtain ⟨nonempty, start, stop, disjoint⟩ := drafted.sound.wellFormed
  obtain ⟨cuts, tail, whole, elements⟩ := Cut.exists_cuts [] draft.textarea.text
    draft.textarea.textElements (by
      intro elem member
      obtain ⟨element, old, rfl⟩ := List.mem_map.mp member
      have zero : len ([] : Text) = 0 := rfl
      exact ⟨_, _, by rw [zero, Nat.zero_add, Nat.zero_add], (nonempty element old).le,
        start element old, stop element old⟩) (List.pairwise_map.mpr disjoint)
  have shows := Cut.get_elementsFrom [] cuts tail
  have placeholders : draft.textarea.textElements.map UserTextElement.placeholder =
      cuts.map Cut.placeholder := by
    rw [elements]
    generalize len ([] : Text) = offset
    clear whole elements shows
    induction cuts generalizing offset with
    | nil => rfl
    | cons cut cuts ih => exact congrArg (cut.placeholder :: ·) (ih _)
  have stored : draft.textarea.textElements.map UserTextElement.placeholder =
      draft.textarea.textElements.map fun elem => get draft.textarea.text elem.byteRange := by
    rw [TextArea.textElements, List.map_map, List.map_map]
    rfl
  rw [List.nil_append, ← whole, ← elements, ← stored, placeholders] at shows
  have own : ∀ cut ∈ cuts, cut.label = cut.payload := by
    intro cut member
    rw [Cut.label, List.map_inj_left.mp shows cut member, Option.getD_some]
  refine ⟨cuts, tail, whole, elements, ?_, own⟩
  have shown : draft.textarea.elements.map (fun element =>
      some (slice draft.textarea.text element.range)) = cuts.map fun cut => some cut.payload := by
    rw [← shows, ← placeholders, TextArea.textElements, List.map_map]
    refine List.map_congr_left fun element member => ?_
    exact (if_pos ⟨(nonempty element member).le, isCharBoundary_iff.mpr (start element member),
      isCharBoundary_iff.mpr (stop element member)⟩).symm
  have payloads : (labelled draft.textarea.text draft.textarea.elements).map Prod.snd =
      cuts.map Cut.payload := by
    refine List.map_injective_iff.mpr (Option.some_injective Text) ?_
    rw [labelled, List.map_map, List.map_map, List.map_map]
    exact shown
  exact payloads ▸ drafted.labels

/-- The label of every pending paste, in order, occurs only once in the draft with the pastes in
front of it put in. -/
def LabelsOnce (draft : Draft) : Prop :=
  ∀ earlier placeholder actual later,
    draft.pendingPastes = earlier ++ (placeholder, actual) :: later →
      occurrences placeholder (draft.withPastes earlier) = 1

theorem labelsOnce_iff {draft : Draft} : draft.LabelsOnce ↔
    ∀ idx (inside : idx < draft.pendingPastes.length),
      occurrences draft.pendingPastes[idx].1
        (draft.withPastes (draft.pendingPastes.take idx)) = 1 := by
  constructor
  · intro once idx inside
    refine once _ _ draft.pendingPastes[idx].2 (draft.pendingPastes.drop (idx + 1)) ?_
    rw [Prod.mk.eta, List.getElem_cons_drop, List.take_append_drop]
  · intro once earlier placeholder actual later whole
    have own := once earlier.length (by simp [whole])
    simpa [whole] using own

instance : DecidablePred Draft.LabelsOnce := fun _ => decidable_of_iff _ labelsOnce_iff.symm

/-- A label that does not occur is not replaced. -/
theorem currentTextWithPending_eq (draft : Draft) :
    draft.currentTextWithPending =
      draft.pendingPastes.foldl (fun text paste => replace paste.1 paste.2 text)
        draft.textarea.text := by
  rw [currentTextWithPending]
  congr
  funext text paste
  exact ite_eq_left_iff.mpr fun absent => (replace_of_absent absent).symm

/-- The text of a draft and the text that submission makes of it, as labels in a text. -/
theorem Drafted.exists_marks (drafted : Drafted draft) :
    ∃ marks tail, draft.textarea.text = joined marks tail ∧
      (marks.map Prod.snd).Perm (draft.pendingPastes.map Prod.fst) ∧
      (∀ pastes, draft.withPastes pastes = inlined pastes marks tail) ∧
      (expandPendingPastes draft.textarea.text draft.textarea.textElements
        draft.pendingPastes).1 = inlined draft.pendingPastes marks tail := by
  obtain ⟨cuts, tail, whole, elements, labels, shows⟩ := drafted.exists_cuts
  have payloads : (Cut.marks cuts).map Prod.snd = cuts.map Cut.payload := by
    rw [Cut.marks, List.map_map]
    rfl
  have distinct : (cuts.map Cut.payload).Nodup :=
    labels.nodup_iff.mpr (nodup_labels drafted.ordered)
  refine ⟨Cut.marks cuts, tail, ?_, payloads ▸ labels, fun pastes => ?_, ?_⟩
  · rw [whole, Cut.joined_marks]
  · have spliced := Cut.inlinedFrom_marks pastes [] cuts tail
    have zero : len ([] : Text) = 0 := rfl
    rw [List.nil_append, ← whole, zero, ← elements, TextArea.textElements, List.map_map] at spliced
    exact spliced
  · rw [← Cut.filled_taking draft.pendingPastes cuts tail shows distinct]
    by_cases pending : draft.pendingPastes = []
    · have none : cuts = [] := by
        rw [pending] at labels
        exact List.map_eq_nil_iff.mp (List.perm_nil.mp labels)
      rw [whole, pending, none]
      rfl
    · have present : draft.textarea.textElements ≠ [] := by
        rintro empty
        rw [empty] at elements
        cases cuts with
        | nil => exact pending (List.map_eq_nil_iff.mp (List.nil_perm.mp labels))
        | cons cut cuts => cases elements
      rw [expandPendingPastes_eq pending present whole]
      rw [← elements]
      refine List.Pairwise.insertionSort_eq ?_
      rw [TextArea.textElements]
      refine List.pairwise_map.mpr (drafted.sound.wellFormed.disjoint.imp_of_mem ?_)
      intro element later member _ behind
      exact (drafted.sound.wellFormed.nonempty element member).le.trans behind

/-- In every draft, the text for the editor is the text for submission exactly when every label
occurs only once when its turn comes. -/
theorem expansions_agree_iff
    (along : Along (Draft.step graphemes) (Drafting graphemes) (start counters) events)
    (ran : run (Draft.step graphemes) (start counters) events = some draft) :
    draft.currentTextWithPending =
        (expandPendingPastes draft.textarea.text draft.textarea.textElements
          draft.pendingPastes).1 ↔
      draft.LabelsOnce := by
  have drafted := drafted_of_run along ran
  obtain ⟨marks, tail, whole, labels, spliced, expanded⟩ := drafted.exists_marks
  have opens : ∀ paste ∈ draft.pendingPastes, Opens '[' paste.1 := by
    intro paste member
    obtain ⟨-, suffix, -, -, -, label⟩ := drafted.pastes paste member
    exact label ▸ opens_largePasteLabel _ _
  have longer : ∀ paste ∈ draft.pendingPastes, paste.1.length < paste.2.length := by
    intro paste member
    obtain ⟨large, suffix, -, bounded, -, label⟩ := drafted.pastes paste member
    rw [label]
    exact length_largePasteLabel_lt large bounded
  have ordered : draft.pendingPastes.Pairwise fun paste later =>
      ¬later.1 <+: paste.1 ∧ (paste.1 <+: later.1 → paste.2.length = later.2.length) := by
    refine drafted.ordered.imp_of_mem fun {paste later} member there against => ⟨against, ?_⟩
    intro begins
    obtain ⟨-, suffix, -, -, -, label⟩ := drafted.pastes paste member
    obtain ⟨-, suffix', positive, -, -, label'⟩ := drafted.pastes later there
    rw [label, label'] at begins
    exact (le_of_opening_label positive begins).1
  rw [currentTextWithPending_eq, expanded, whole,
    foldl_replace_eq_inlined_iff opens longer ordered labels, LabelsOnce]
  simp only [spliced, Prod.forall]

/-- Two pastes of the same length. -/
def sameLength : List DraftEvent :=
  [.paste (List.replicate 1001 'a'), .paste (List.replicate 1001 'b')]

theorem along_sameLength :
    Along (Draft.step .byChar) (Drafting .byChar) (start fun _ => 0) sameLength := by
  refine along_of_always (fun event member draft => ?_) _
  simp only [sameLength, List.mem_cons, List.not_mem_nil, or_false] at member
  obtain rfl | rfl := member
  all_goals exact trivial

/-- The label of the first paste begins the label of the second one. -/
theorem expansions_differ_sameLength :
    Along (Draft.step .byChar) (Drafting .byChar) (start fun _ => 0) sameLength ∧
      ∃ draft, run (Draft.step .byChar) (start fun _ => 0) sameLength = some draft ∧
        draft.currentTextWithPending ≠
          (expandPendingPastes draft.textarea.text draft.textarea.textElements
            draft.pendingPastes).1 := by
  have differ : ((run (Draft.step .byChar) (start fun _ => 0) sameLength).any fun draft =>
      decide (draft.currentTextWithPending ≠
        (expandPendingPastes draft.textarea.text draft.textarea.textElements
          draft.pendingPastes).1)) = true := by decide +kernel
  obtain ⟨draft, ran, apart⟩ := (Option.any_eq_true _ _).mp differ
  exact ⟨along_sameLength, draft, ran, of_decide_eq_true apart⟩

/-- Two pastes of different lengths, with text typed in front of them. -/
def typedAndPasted : List DraftEvent :=
  [.edit (.insertStr "see ".toList), .paste (List.replicate 1001 'a'),
    .paste (List.replicate 1002 'b')]

theorem expansions_agree_typedAndPasted :
    ∃ draft, run (Draft.step .byChar) (start fun _ => 0) typedAndPasted = some draft ∧
      draft.currentTextWithPending =
        (expandPendingPastes draft.textarea.text draft.textarea.textElements
          draft.pendingPastes).1 := by
  have along : Along (Draft.step .byChar) (Drafting .byChar) (start fun _ => 0)
      typedAndPasted := by
    intro draft stepped
    exact ⟨⟨trivial, trivial, List.forall_mem_nil _⟩,
      fun next _ => ⟨trivial, fun last _ => ⟨trivial, trivial⟩⟩⟩
  have goes : ((run (Draft.step .byChar) (start fun _ => 0) typedAndPasted).any fun draft =>
      decide draft.LabelsOnce) = true := by decide +kernel
  obtain ⟨draft, ran, once⟩ := (Option.any_eq_true _ _).mp goes
  exact ⟨draft, ran, (expansions_agree_iff along ran).mpr (of_decide_eq_true once)⟩

end Draft

end CodexPilot.Composer
