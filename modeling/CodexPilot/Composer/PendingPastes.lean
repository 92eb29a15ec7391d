import CodexPilot.Composer.ChatComposer
import CodexPilot.Composer.Elements
import CodexPilot.Library.Replacing

/-!
# Large pastes of a draft

A paste that is long enough stands in the draft as an element with a label, and is put in its place
when the draft is submitted or opened in an external editor.  Submission walks over the elements,
with the byte ranges of those that stay counted anew, and trims the text; the editor gets the text
with every label replaced.
-/

namespace CodexPilot.Composer

open RustStd

/-! ## Elements outside of the text area -/

/-- The `TextElement` of the protocol. -/
structure UserTextElement where
  byteRange : ByteRange
  placeholder : Option Text
  deriving DecidableEq

/-- `TextElement::placeholder`: what is stored, or else what the text shows. -/
def UserTextElement.placeholderIn (element : UserTextElement) (text : Text) : Option Text :=
  element.placeholder.or (get text element.byteRange)

/-- `text_elements`. -/
def TextArea.textElements (area : TextArea) : List UserTextElement :=
  area.elements.map fun element => ⟨element.range, get area.text element.range⟩

/-! ## The draft -/

/-- What of `ChatComposer` large pastes act on. -/
structure Draft where
  textarea : TextArea
  pendingPastes : List (Text × Text)
  largePasteCounters : ℕ → ℕ

/-- The label of a paste of so many characters, for the number of the paste among those. -/
def largePasteLabel (charCount suffix : ℕ) : Text :=
  let base := "[Pasted Content ".toList ++ (Nat.toDigits 10 charCount ++ " chars]".toList)
  if suffix = 1 then base else base ++ (" #".toList ++ Nat.toDigits 10 suffix)

namespace Draft

/-- An empty draft in a composer that has labelled some pastes before. -/
def start (counters : ℕ → ℕ) : Draft where
  textarea := .new
  pendingPastes := []
  largePasteCounters := counters

/-- `next_large_paste_placeholder`; there is no number behind the greatest one. -/
def nextLargePastePlaceholder (draft : Draft) (charCount : ℕ) : Option (Text × Draft) :=
  let nextSuffix := draft.largePasteCounters charCount + 1
  if u64Max < nextSuffix then none
  else
    some (largePasteLabel charCount nextSuffix,
      { draft with
        largePasteCounters := Function.update draft.largePasteCounters charCount nextSuffix })

/-- `handle_paste`, with pastes of images off. -/
def handlePaste (draft : Draft) (pasted : Text) : Option Draft :=
  let pasted := normalizeLineEnds pasted
  if largePasteCharThreshold < pasted.length then
    (draft.nextLargePastePlaceholder pasted.length).map fun (placeholder, draft) =>
      { draft with
        textarea := draft.textarea.insertElement placeholder
        pendingPastes := draft.pendingPastes ++ [(placeholder, pasted)] }
  else
    some
      { draft with textarea := draft.textarea.insertStr pasted }

/-- `current_text_with_pending`. -/
def currentTextWithPending (draft : Draft) : Text :=
  draft.pendingPastes.foldl (fun text (placeholder, actual) =>
    if placeholder <:+: text then Replacing.replace placeholder actual text else text)
    draft.textarea.text

end Draft

/-! ## Submission -/

/-- What the loop of `expand_pending_pastes` works on. -/
structure Expansion where
  rebuilt : Text
  rebuiltElements : List UserTextElement
  cursor : ℕ
  pendingByPlaceholder : Text → List Text

/-- The first stage of `expand_pending_pastes`: the payloads of every placeholder, in order. -/
def indexByPlaceholder (pendingPastes : List (Text × Text)) (placeholder : Text) : List Text :=
  (pendingPastes.filter fun pending => pending.1 == placeholder).map Prod.snd

/-- The body of the loop of `expand_pending_pastes`. -/
def Expansion.element (text : Text) (state : Expansion) (elem : UserTextElement) : Expansion :=
  let start := min elem.byteRange.start (len text)
  let stop := min elem.byteRange.stop (len text)
  if stop < start then state
  else
    let rebuilt :=
      if state.cursor < start then state.rebuilt ++ slice text ⟨state.cursor, start⟩
      else state.rebuilt
    let elemText := slice text ⟨start, stop⟩
    let placeholder := elem.placeholderIn text
    match placeholder, (placeholder.elim [] state.pendingByPlaceholder) with
    | some ph, actual :: later =>
        { rebuilt := rebuilt ++ actual
          rebuiltElements := state.rebuiltElements
          cursor := stop
          pendingByPlaceholder := Function.update state.pendingByPlaceholder ph later }
    | _, _ =>
        { state with
          rebuilt := rebuilt ++ elemText
          rebuiltElements := state.rebuiltElements ++
            [⟨⟨len rebuilt, len (rebuilt ++ elemText)⟩, placeholder.or (some elemText)⟩]
          cursor := stop }

/-- `expand_pending_pastes`. -/
def expandPendingPastes (text : Text) (elements : List UserTextElement)
    (pendingPastes : List (Text × Text)) : Text × List UserTextElement :=
  if pendingPastes.isEmpty || elements.isEmpty then (text, elements)
  else
    let state := (sortByKey (fun elem => elem.byteRange.start) elements).foldl
      (Expansion.element text) ⟨[], [], 0, indexByPlaceholder pendingPastes⟩
    (if state.cursor < len text then state.rebuilt ++ onward text state.cursor else state.rebuilt,
      state.rebuiltElements)

/-- `trim_text_elements`. -/
def trimTextElements (original trimmed : Text) (elements : List UserTextElement) :
    List UserTextElement :=
  if trimmed.isEmpty || elements.isEmpty then []
  else
    let trimmedStart := len original - len (Text.trimStart original)
    let trimmedEnd := trimmedStart + len trimmed
    elements.filterMap fun elem =>
      let start := elem.byteRange.start
      let stop := elem.byteRange.stop
      if stop ≤ trimmedStart ∨ trimmedEnd ≤ start then none
      else
        let newStart := start - trimmedStart
        let newEnd := min (stop - trimmedStart) (len trimmed)
        if newEnd ≤ newStart then none
        else some ⟨⟨newStart, newEnd⟩, get trimmed ⟨newStart, newEnd⟩⟩

/-- What `prepare_submission_text` makes of the text and its elements, up to where it has trimmed
both. -/
def prepareSubmissionText (text : Text) (elements : List UserTextElement)
    (pendingPastes : List (Text × Text)) : Text × List UserTextElement :=
  let (expandedInput, elements) :=
    if pendingPastes.isEmpty then (text, elements)
    else expandPendingPastes text elements pendingPastes
  (Text.trim expandedInput, trimTextElements expandedInput (Text.trim expandedInput) elements)

/-! ## Texts that are cut at their elements -/

/-- An element, with the text between it and the element in front of it. -/
structure Cut where
  gap : Text
  payload : Text
  placeholder : Option Text

namespace Cut

/-- The label of an element. -/
def label (cut : Cut) : Text := cut.placeholder.getD cut.payload

/-- The text of some elements, with the text behind the last one. -/
def joined (cuts : List Cut) (tail : Text) : Text :=
  cuts.foldr (fun cut rest => cut.gap ++ (cut.payload ++ rest)) tail

/-- The elements, with their ranges counted from an offset on. -/
def elementsFrom : ℕ → List Cut → List UserTextElement
  | _, [] => []
  | offset, cut :: cuts =>
      let start := offset + len cut.gap
      ⟨⟨start, start + len cut.payload⟩, cut.placeholder⟩ ::
        elementsFrom (start + len cut.payload) cuts

/-- The payloads that the elements take: each the first one that is left for its label. -/
def taking : (Text → List Text) → List Cut → List (Cut × Option Text)
  | _, [] => []
  | pending, cut :: cuts =>
      match pending cut.label with
      | actual :: later =>
          (cut, some actual) :: taking (Function.update pending cut.label later) cuts
      | [] => (cut, none) :: taking pending cuts

/-- The text with the payloads that are taken in place of the elements that take them. -/
def filled (pieces : List (Cut × Option Text)) (tail : Text) : Text :=
  pieces.foldr (fun (cut, taken) rest => cut.gap ++ (taken.getD cut.payload ++ rest)) tail

/-- The elements that take no payload, with their ranges counted from an offset on. -/
def keptFrom : ℕ → List (Cut × Option Text) → List UserTextElement
  | _, [] => []
  | offset, (cut, some actual) :: pieces =>
      keptFrom (offset + len cut.gap + len actual) pieces
  | offset, (cut, none) :: pieces =>
      let start := offset + len cut.gap
      ⟨⟨start, start + len cut.payload⟩, some cut.label⟩ ::
        keptFrom (start + len cut.payload) pieces

end Cut

section Cutting

variable {front gap payload rest : Text} {cut : Cut} {cuts : List Cut} {offset : ℕ}

@[simp]
theorem Cut.joined_nil (tail : Text) : Cut.joined [] tail = tail := rfl

@[simp]
theorem Cut.joined_cons (tail : Text) :
    Cut.joined (cut :: cuts) tail = cut.gap ++ (cut.payload ++ Cut.joined cuts tail) := rfl

theorem Cut.joined_eq_append (cuts : List Cut) (tail : Text) :
    Cut.joined cuts tail = Cut.joined cuts [] ++ tail := by
  induction cuts with
  | nil => rfl
  | cons cut cuts ih =>
      rw [joined_cons, joined_cons, ih, List.append_assoc, List.append_assoc]

theorem Cut.filled_eq_append (pieces : List (Cut × Option Text)) (tail : Text) :
    Cut.filled pieces tail = Cut.filled pieces [] ++ tail := by
  induction pieces with
  | nil => rfl
  | cons piece pieces ih =>
      rw [filled, filled, List.foldr_cons, List.foldr_cons, ← filled, ← filled, ih,
        List.append_assoc, List.append_assoc]

/-- Two boundaries of a text show what is between them. -/
theorem get_append (front payload rest : Text) :
    get (front ++ (payload ++ rest)) ⟨len front, len front + len payload⟩ = some payload := by
  have first : isCharBoundary (front ++ (payload ++ rest)) (len front) = true :=
    isCharBoundary_iff.mpr (Offsets.isBoundary_extent front _)
  have last : isCharBoundary (front ++ (payload ++ rest)) (len front + len payload) = true := by
    rw [← len_append, ← List.append_assoc]
    exact isCharBoundary_iff.mpr (Offsets.isBoundary_extent (front ++ payload) rest)
  rw [get, if_pos ⟨Nat.le_add_right _ _, first, last⟩, slice_append]

/-- The ranges of the elements show their payloads. -/
theorem Cut.get_elementsFrom (front : Text) (cuts : List Cut) (tail : Text) :
    (elementsFrom (len front) cuts).map (fun elem =>
        get (front ++ joined cuts tail) elem.byteRange) = cuts.map fun cut => some cut.payload := by
  induction cuts generalizing front with
  | nil => rfl
  | cons cut cuts ih =>
      have later := ih (front ++ (cut.gap ++ cut.payload))
      have whole : front ++ (cut.gap ++ cut.payload) ++ joined cuts tail =
          front ++ joined (cut :: cuts) tail := by simp
      rw [whole, len_append, len_append, ← Nat.add_assoc] at later
      rw [elementsFrom, List.map_cons, List.map_cons, later]
      congr 1
      have own := get_append (front ++ cut.gap) cut.payload (joined cuts tail)
      rwa [len_append, List.append_assoc] at own

/-- Elements in order, with their edges on character boundaries, cut a text. -/
theorem Cut.exists_cuts (front rest : Text) (elements : List UserTextElement)
    (placed : ∀ elem ∈ elements, ∃ start stop,
      elem.byteRange = ⟨len front + start, len front + stop⟩ ∧ start ≤ stop ∧
        Offsets.IsBoundary Char.utf8Size rest start ∧ Offsets.IsBoundary Char.utf8Size rest stop)
    (disjoint : elements.Pairwise fun elem later => elem.byteRange.stop ≤ later.byteRange.start) :
    ∃ cuts tail, rest = joined cuts tail ∧ elements = elementsFrom (len front) cuts := by
  induction elements generalizing front rest with
  | nil => exact ⟨[], rest, rfl, rfl⟩
  | cons elem elements ih =>
      obtain ⟨range, placeholder⟩ := elem
      obtain ⟨first, later⟩ := List.pairwise_cons.mp disjoint
      obtain ⟨start, stop, rfl, ordered, startStands, stopStands⟩ := placed _ List.mem_cons_self
      obtain ⟨gap, payload, after, rfl, rfl, rfl⟩ :=
        Offsets.exists_between Char.utf8Size_pos startStands stopStands ordered
      -- Behind the element, the offsets are counted from its end on.
      have behind : len (front ++ (gap ++ payload)) =
          len front + (Offsets.extent Char.utf8Size gap +
            Offsets.extent Char.utf8Size payload) := by
        rw [len_append, len_append]
        rfl
      obtain ⟨cuts, tail, rfl, own⟩ := ih (front ++ (gap ++ payload)) after
        (fun other member => by
          obtain ⟨start', stop', range, ordered', startStands', stopStands'⟩ :=
            placed other (List.mem_cons_of_mem _ member)
          have past := first other member
          rw [range] at past
          dsimp only at past
          obtain ⟨more, rfl⟩ := Nat.exists_eq_add_of_le (Nat.le_of_add_le_add_left past)
          obtain ⟨more', rfl⟩ := Nat.exists_eq_add_of_le
            ((Nat.le_of_add_le_add_left past).trans ordered')
          rw [← List.append_assoc, ← Offsets.extent_append] at startStands' stopStands'
          refine ⟨more, more', ?_, Nat.le_of_add_le_add_left ordered', ?_, ?_⟩
          · rw [range, behind, Nat.add_assoc (len front), Nat.add_assoc (len front)]
          · exact (Offsets.isBoundary_append_iff Char.utf8Size_pos).mp startStands'
          · exact (Offsets.isBoundary_append_iff Char.utf8Size_pos).mp stopStands') later
      refine ⟨⟨gap, payload, placeholder⟩ :: cuts, tail, rfl, ?_⟩
      rw [elementsFrom, own, behind, ← Nat.add_assoc]
      rfl

end Cutting

section Expanding

variable {front gap payload rest : Text} {cut : Cut} {cuts : List Cut} {offset : ℕ}

/-- One round of the loop, behind the text that it has seen. -/
theorem Expansion.element_cut (front : Text) (cut : Cut) (rest rebuilt : Text)
    (rebuiltElements : List UserTextElement) (pending : Text → List Text) :
    Expansion.element (front ++ (cut.gap ++ (cut.payload ++ rest)))
        ⟨rebuilt, rebuiltElements, len front, pending⟩
        ⟨⟨len front + len cut.gap, len front + len cut.gap + len cut.payload⟩, cut.placeholder⟩ =
      match pending cut.label with
      | actual :: later =>
          ⟨rebuilt ++ (cut.gap ++ actual), rebuiltElements,
            len front + len cut.gap + len cut.payload, Function.update pending cut.label later⟩
      | [] =>
          ⟨rebuilt ++ (cut.gap ++ cut.payload),
            rebuiltElements ++ [⟨⟨len rebuilt + len cut.gap,
              len rebuilt + len cut.gap + len cut.payload⟩, some cut.label⟩],
            len front + len cut.gap + len cut.payload, pending⟩ := by
  obtain ⟨gap, payload, placeholder⟩ := cut
  have total : len (front ++ (gap ++ (payload ++ rest))) =
      len front + len gap + len payload + len rest := by
    simp only [len_append]
    omega
  have start : min (len front + len gap) (len (front ++ (gap ++ (payload ++ rest)))) =
      len front + len gap := by omega
  have stop : min (len front + len gap + len payload)
      (len (front ++ (gap ++ (payload ++ rest)))) = len front + len gap + len payload := by omega
  have between := slice_append front gap (payload ++ rest)
  have own := slice_append (front ++ gap) payload rest
  rw [len_append, List.append_assoc] at own
  have shows : get (front ++ (gap ++ (payload ++ rest)))
      ⟨len front + len gap, len front + len gap + len payload⟩ = some payload := by
    have shows := get_append (front ++ gap) payload rest
    rwa [len_append, List.append_assoc] at shows
  have rebuilding : (if len front < len front + len gap then
      rebuilt ++ slice (front ++ (gap ++ (payload ++ rest))) ⟨len front, len front + len gap⟩
      else rebuilt) = rebuilt ++ gap := by
    split
    case isTrue => rw [between]
    case isFalse empty =>
      have none : gap = [] := Offsets.eq_nil_of_extent_eq_zero Char.utf8Size_pos (by
        change len gap = 0
        omega)
      rw [none, List.append_nil]
  have named : UserTextElement.placeholderIn
      ⟨⟨len front + len gap, len front + len gap + len payload⟩, placeholder⟩
      (front ++ (gap ++ (payload ++ rest))) = some (Cut.label ⟨gap, payload, placeholder⟩) := by
    rw [UserTextElement.placeholderIn, shows]
    cases placeholder <;> rfl
  rw [Expansion.element]
  dsimp only
  rw [start, stop, if_neg (by omega), named, own, rebuilding]
  dsimp only [Option.elim]
  cases pending (Cut.label ⟨gap, payload, placeholder⟩) with
  | nil => simp [Nat.add_assoc]
  | cons actual later => simp

/-- The whole loop, behind the text that it has seen. -/
theorem Expansion.foldl_element (front : Text) (cuts : List Cut) (tail rebuilt : Text)
    (rebuiltElements : List UserTextElement) (pending : Text → List Text) :
    ∃ pending', (Cut.elementsFrom (len front) cuts).foldl
        (Expansion.element (front ++ Cut.joined cuts tail))
        ⟨rebuilt, rebuiltElements, len front, pending⟩ =
      ⟨rebuilt ++ Cut.filled (Cut.taking pending cuts) [],
        rebuiltElements ++ Cut.keptFrom (len rebuilt) (Cut.taking pending cuts),
        len front + len (Cut.joined cuts []), pending'⟩ := by
  induction cuts generalizing front rebuilt rebuiltElements pending with
  | nil => exact ⟨pending, by simp [Cut.elementsFrom, Cut.filled, Cut.taking, Cut.keptFrom, len]⟩
  | cons cut cuts ih =>
      have round := element_cut front cut (Cut.joined cuts tail) rebuilt rebuiltElements pending
      have whole : front ++ (cut.gap ++ cut.payload) ++ Cut.joined cuts tail =
          front ++ (cut.gap ++ (cut.payload ++ Cut.joined cuts tail)) := by simp
      have behind : len (front ++ (cut.gap ++ cut.payload)) =
          len front + len cut.gap + len cut.payload := by
        rw [len_append, len_append, Nat.add_assoc]
      rw [Cut.elementsFrom, List.foldl_cons, Cut.joined_cons, round]
      cases taken : pending cut.label with
      | nil =>
          obtain ⟨pending', ran⟩ := ih (front ++ (cut.gap ++ cut.payload))
            (rebuilt ++ (cut.gap ++ cut.payload)) (rebuiltElements ++ [⟨⟨len rebuilt + len cut.gap,
              len rebuilt + len cut.gap + len cut.payload⟩, some cut.label⟩]) pending
          refine ⟨pending', ?_⟩
          rw [whole, behind] at ran
          rw [ran, Cut.taking, taken]
          simp [Cut.filled, Cut.keptFrom, Nat.add_assoc]
      | cons actual later =>
          obtain ⟨pending', ran⟩ := ih (front ++ (cut.gap ++ cut.payload))
            (rebuilt ++ (cut.gap ++ actual)) rebuiltElements
            (Function.update pending cut.label later)
          refine ⟨pending', ?_⟩
          rw [whole, behind] at ran
          rw [ran, Cut.taking, taken]
          simp [Cut.filled, Cut.keptFrom, Nat.add_assoc]

/-- Expansion puts payloads in the place of the elements that take them, and keeps the others. -/
theorem expandPendingPastes_eq {text : Text} {elements : List UserTextElement}
    {pendingPastes : List (Text × Text)} {tail : Text} (pending : pendingPastes ≠ [])
    (present : elements ≠ []) (whole : text = Cut.joined cuts tail)
    (sorted : sortByKey (fun elem => elem.byteRange.start) elements = Cut.elementsFrom 0 cuts) :
    expandPendingPastes text elements pendingPastes =
      (Cut.filled (Cut.taking (indexByPlaceholder pendingPastes) cuts) tail,
        Cut.keptFrom 0 (Cut.taking (indexByPlaceholder pendingPastes) cuts)) := by
  obtain ⟨pending', ran⟩ := Expansion.foldl_element [] cuts tail [] []
    (indexByPlaceholder pendingPastes)
  have length : len ([] : Text) = 0 := rfl
  rw [List.nil_append, List.nil_append, List.nil_append, length, Nat.zero_add] at ran
  have behind : onward text (len (Cut.joined cuts [])) = tail := by
    rw [whole, Cut.joined_eq_append cuts tail]
    exact Offsets.back_append Char.utf8Size_pos _ tail
  rw [expandPendingPastes, if_neg (by simp [pending, present]), sorted, whole, ran, ← whole]
  dsimp only
  rw [behind, Cut.filled_eq_append _ tail]
  split
  case isTrue => rfl
  case isFalse reached =>
    have none : tail = [] := Offsets.eq_nil_of_extent_eq_zero Char.utf8Size_pos (by
      rw [whole, Cut.joined_eq_append cuts tail, len_append] at reached
      change len tail = 0
      omega)
    rw [none, List.append_nil]

end Expanding

end CodexPilot.Composer
