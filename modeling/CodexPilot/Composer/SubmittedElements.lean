import CodexPilot.Composer.PendingPastes

/-!
# What is submitted of the elements

Submission puts every pending paste in place of the first element with its label, and trims the
text.  The elements that stay are counted anew on the way; each of them shows in the trimmed text
what it showed in the draft.
-/

namespace CodexPilot.Composer

open RustStd

/-! ## Edges of payloads -/

/-- A payload that is not empty and neither starts nor ends with white space. -/
structure Inked (payload : Text) : Prop where
  nonempty : payload ≠ []
  head : ∀ c, payload.head? = some c → Text.isWhitespace c = false
  last : ∀ c, payload.getLast? = some c → Text.isWhitespace c = false

theorem Inked.of_ends {payload : Text} (first last : Char) (starts : payload.head? = some first)
    (ends : payload.getLast? = some last) (ink : Text.isWhitespace first = false)
    (ink' : Text.isWhitespace last = false) : Inked payload where
  nonempty none := by
    rw [none] at starts
    cases starts
  head c shown := by
    cases starts.symm.trans shown
    exact ink
  last c shown := by
    cases ends.symm.trans shown
    exact ink'

section Trimming

variable {left right payload front gap tail : Text} {cuts : List Cut}

/-- White space is trimmed up to a text that starts with none. -/
theorem trimStart_append_of_head (left : Text)
    (ink : ∀ c, right.head? = some c → Text.isWhitespace c = false) :
    Text.trimStart (left ++ right) = Text.trimStart left ++ right := by
  induction left with
  | nil =>
      cases right with
      | nil => rfl
      | cons c right => exact List.dropWhile_cons_of_neg (by simp [ink c rfl])
  | cons c left ih =>
      cases white : Text.isWhitespace c with
      | false => simp [Text.trimStart, white]
      | true => simpa [Text.trimStart, white] using ih

/-- White space is trimmed back to a text that ends with none. -/
theorem trimEnd_append_of_last (right : Text)
    (ink : ∀ c, left.getLast? = some c → Text.isWhitespace c = false) :
    Text.trimEnd (left ++ right) = left ++ Text.trimEnd right := by
  have reversed : Text.trimStart (right.reverse ++ left.reverse) =
      Text.trimStart right.reverse ++ left.reverse :=
    trimStart_append_of_head right.reverse fun c begins => ink c (by
      rwa [List.head?_reverse] at begins)
  simp only [Text.trimStart] at reversed
  simp [Text.trimEnd, List.rdropWhile, reversed]

theorem len_trimStart_le (text : Text) : len (Text.trimStart text) ≤ len text := by
  have whole := congrArg len (List.takeWhile_append_dropWhile (p := Text.isWhitespace) (l := text))
  rw [len_append] at whole
  exact Nat.le.intro ((Nat.add_comm _ _).trans whole)

namespace Cut

/-- Trim a text that is cut at its elements. -/
def trimmed : List Cut × Text → List Cut × Text
  | ([], tail) => ([], Text.trim tail)
  | (cut :: cuts, tail) =>
      ({ cut with gap := Text.trimStart cut.gap } :: cuts, Text.trimEnd tail)

theorem trimEnd_joined (front : Text)
    (ink : ∀ c, front.getLast? = some c → Text.isWhitespace c = false)
    (inked : ∀ cut ∈ cuts, Inked cut.payload) (tail : Text) :
    Text.trimEnd (front ++ joined cuts tail) = front ++ joined cuts (Text.trimEnd tail) := by
  induction cuts generalizing front with
  | nil => exact trimEnd_append_of_last tail ink
  | cons cut cuts ih =>
      obtain ⟨first, later⟩ := List.forall_mem_cons.mp inked
      have rest := ih (front ++ (cut.gap ++ cut.payload)) (fun c ends => by
        rw [← List.append_assoc, List.getLast?_append_of_ne_nil _ first.nonempty] at ends
        exact first.last c ends) later
      rw [joined_cons, joined_cons]
      simpa only [List.append_assoc] using rest

/-- Trimming takes nothing of the elements. -/
theorem trim_joined (inked : ∀ cut ∈ cuts, Inked cut.payload) (tail : Text) :
    Text.trim (joined cuts tail) =
      joined (trimmed (cuts, tail)).1 (trimmed (cuts, tail)).2 := by
  cases cuts with
  | nil => rfl
  | cons cut cuts =>
      obtain ⟨first, later⟩ := List.forall_mem_cons.mp inked
      have ink : ∀ c, (cut.payload ++ joined cuts tail).head? = some c →
          Text.isWhitespace c = false := by
        rw [List.head?_append_of_ne_nil _ first.nonempty]
        exact first.head
      rw [Text.trim, joined_cons, trimStart_append_of_head cut.gap ink, ← List.append_assoc,
        trimEnd_joined _ (fun c ends => ?_) later, List.append_assoc]
      · rfl
      · rw [List.getLast?_append_of_ne_nil _ first.nonempty] at ends
        exact first.last c ends

/-- What is trimmed in front of the first element. -/
def lead : List Cut → ℕ
  | [] => 0
  | cut :: _ => len cut.gap - len (Text.trimStart cut.gap)

theorem len_sub_trimStart (present : cuts ≠ []) (inked : ∀ cut ∈ cuts, Inked cut.payload)
    (tail : Text) :
    len (joined cuts tail) - len (Text.trimStart (joined cuts tail)) = lead cuts := by
  obtain ⟨cut, cuts, rfl⟩ := List.exists_cons_of_ne_nil present
  obtain ⟨first, -⟩ := List.forall_mem_cons.mp inked
  have ink : ∀ c, (cut.payload ++ joined cuts tail).head? = some c →
      Text.isWhitespace c = false := by
    rw [List.head?_append_of_ne_nil _ first.nonempty]
    exact first.head
  have shorter := len_trimStart_le cut.gap
  rw [joined_cons, trimStart_append_of_head cut.gap ink, lead]
  simp only [len_append]
  omega

/-- A range as it is in the trimmed text. -/
def shifted (lead : ℕ) (range : ByteRange) : ByteRange := ⟨range.start - lead, range.stop - lead⟩

theorem map_shifted (offset lead : ℕ) (cuts : List Cut) :
    (elementsFrom (offset + lead) cuts).map (fun elem => shifted lead elem.byteRange) =
      (elementsFrom offset cuts).map UserTextElement.byteRange := by
  induction cuts generalizing offset with
  | nil => rfl
  | cons cut cuts ih =>
      have later := ih (offset + len cut.gap + len cut.payload)
      have behind : offset + len cut.gap + len cut.payload + lead =
          offset + lead + len cut.gap + len cut.payload := by omega
      rw [behind] at later
      rw [elementsFrom, elementsFrom, List.map_cons, List.map_cons, later]
      congr 1
      rw [shifted]
      congr 1 <;> dsimp only <;> omega

/-- The ranges in the trimmed text are those of its elements. -/
theorem map_shifted_trimmed (cuts : List Cut) (tail : Text) :
    (elementsFrom 0 cuts).map (fun elem => shifted (lead cuts) elem.byteRange) =
      (elementsFrom 0 (trimmed (cuts, tail)).1).map UserTextElement.byteRange := by
  cases cuts with
  | nil => rfl
  | cons cut cuts =>
      have shorter := len_trimStart_le cut.gap
      have later := map_shifted (len (Text.trimStart cut.gap) + len cut.payload)
        (lead (cut :: cuts)) cuts
      have behind : len (Text.trimStart cut.gap) + len cut.payload + lead (cut :: cuts) =
          0 + len cut.gap + len cut.payload := by
        rw [lead]
        omega
      rw [behind] at later
      rw [elementsFrom, List.map_cons, later, trimmed, elementsFrom, List.map_cons]
      congr 1
      · rw [shifted, lead]
        congr 1 <;> dsimp only <;> omega
      · rw [Nat.zero_add]

/-- The elements are in order behind the offset, and in front of the end of the last one. -/
theorem bounds_elementsFrom {offset : ℕ} {elem : UserTextElement}
    (inked : ∀ cut ∈ cuts, Inked cut.payload) (member : elem ∈ elementsFrom offset cuts) :
    offset ≤ elem.byteRange.start ∧ elem.byteRange.start < elem.byteRange.stop ∧
      elem.byteRange.stop ≤ offset + len (joined cuts []) := by
  induction cuts generalizing offset with
  | nil => cases member
  | cons cut cuts ih =>
      obtain ⟨first, later⟩ := List.forall_mem_cons.mp inked
      have positive := len_pos first.nonempty
      rw [joined_cons, len_append, len_append]
      obtain rfl | behind := List.mem_cons.mp member
      · dsimp only
        omega
      · have bounds := ih later behind
        omega

theorem lead_le_start {elem : UserTextElement} (inked : ∀ cut ∈ cuts, Inked cut.payload)
    (member : elem ∈ elementsFrom 0 cuts) : lead cuts ≤ elem.byteRange.start := by
  cases cuts with
  | nil => cases member
  | cons cut cuts =>
      obtain ⟨-, later⟩ := List.forall_mem_cons.mp inked
      rw [lead]
      obtain rfl | behind := List.mem_cons.mp member
      · dsimp only
        omega
      · have bounds := bounds_elementsFrom later behind
        omega

/-- The payloads of a trimmed text. -/
theorem payloads_trimmed (cuts : List Cut) (tail : Text) :
    (trimmed (cuts, tail)).1.map (fun cut => (cut.payload, cut.placeholder)) =
      cuts.map fun cut => (cut.payload, cut.placeholder) := by
  cases cuts <;> rfl

theorem inked_trimmed (inked : ∀ cut ∈ cuts, Inked cut.payload) (tail : Text) :
    ∀ cut ∈ (trimmed (cuts, tail)).1, Inked cut.payload := by
  cases cuts with
  | nil => exact List.forall_mem_nil _
  | cons cut cuts =>
      obtain ⟨first, later⟩ := List.forall_mem_cons.mp inked
      exact List.forall_mem_cons.mpr ⟨first, later⟩

/-- Trimming moves the range of every element, and drops none. -/
theorem trimTextElements_eq (inked : ∀ cut ∈ cuts, Inked cut.payload) (tail : Text)
    {elements : List UserTextElement} (among : ∀ elem ∈ elements,
      elem.byteRange ∈ (elementsFrom 0 cuts).map UserTextElement.byteRange) :
    trimTextElements (joined cuts tail) (Text.trim (joined cuts tail)) elements =
      elements.map fun elem => ⟨shifted (lead cuts) elem.byteRange,
        get (Text.trim (joined cuts tail)) (shifted (lead cuts) elem.byteRange)⟩ := by
  have bounds : ∀ elem ∈ elements, lead cuts ≤ elem.byteRange.start ∧
      elem.byteRange.start < elem.byteRange.stop ∧
      elem.byteRange.stop ≤ lead cuts + len (Text.trim (joined cuts tail)) := by
    intro elem member
    obtain ⟨old, there, same⟩ := List.mem_map.mp (among elem member)
    have inFront := lead_le_start inked there
    have wide := bounds_elementsFrom inked there
    have moved : shifted (lead cuts) old.byteRange ∈
        (elementsFrom 0 (trimmed (cuts, tail)).1).map UserTextElement.byteRange := by
      rw [← map_shifted_trimmed cuts tail]
      exact List.mem_map_of_mem there
    obtain ⟨new, here, moved⟩ := List.mem_map.mp moved
    have within := bounds_elementsFrom (inked_trimmed inked tail) here
    rw [moved, shifted] at within
    rw [trim_joined inked tail, joined_eq_append _ (trimmed (cuts, tail)).2, len_append, ← same]
    dsimp only at within
    omega
  by_cases none : elements = []
  · rw [none, trimTextElements]
    simp
  have present : cuts ≠ [] := by
    rintro rfl
    obtain ⟨elem, elements, rfl⟩ := List.exists_cons_of_ne_nil none
    exact absurd (among elem List.mem_cons_self) List.not_mem_nil
  have shown : Text.trim (joined cuts tail) ≠ [] := by
    intro empty
    obtain ⟨elem, elements, rfl⟩ := List.exists_cons_of_ne_nil none
    have within := bounds elem List.mem_cons_self
    have zero : len ([] : Text) = 0 := rfl
    rw [empty, zero] at within
    omega
  rw [trimTextElements, if_neg (by simp [shown, none])]
  dsimp only
  rw [len_sub_trimStart present inked tail, ← List.filterMap_eq_map]
  refine List.filterMap_congr fun elem member => ?_
  obtain ⟨inFront, wide, within⟩ := bounds elem member
  have stop : min (elem.byteRange.stop - lead cuts) (len (Text.trim (joined cuts tail))) =
      elem.byteRange.stop - lead cuts := by omega
  rw [if_neg (by omega), stop, if_neg (by omega)]
  rfl

/-- The elements of a cut text are known by their ranges and placeholders. -/
theorem elements_ext {elements others : List UserTextElement}
    (ranges : elements.map UserTextElement.byteRange = others.map UserTextElement.byteRange)
    (placeholders : elements.map UserTextElement.placeholder =
      others.map UserTextElement.placeholder) : elements = others := by
  induction elements generalizing others with
  | nil => exact (List.map_eq_nil_iff.mp ranges.symm).symm
  | cons elem elements ih =>
      cases others with
      | nil => cases ranges
      | cons other others =>
          obtain ⟨range, ranges'⟩ := List.cons_eq_cons.mp ranges
          obtain ⟨placeholder, placeholders'⟩ := List.cons_eq_cons.mp placeholders
          have same : elem = other := by
            cases elem
            cases other
            exact congrArg₂ UserTextElement.mk range placeholder
          rw [same, ih ranges' placeholders']

theorem placeholders_elementsFrom (offset : ℕ) (cuts : List Cut) :
    (elementsFrom offset cuts).map UserTextElement.placeholder = cuts.map placeholder := by
  induction cuts generalizing offset with
  | nil => rfl
  | cons cut cuts ih => exact congrArg (cut.placeholder :: ·) (ih _)

/-- The elements of the trimmed text. -/
theorem map_trimmed (inked : ∀ cut ∈ cuts, Inked cut.payload)
    (shows : ∀ cut ∈ cuts, cut.placeholder = some cut.payload) (tail : Text) :
    (elementsFrom 0 cuts).map (fun elem => (⟨shifted (lead cuts) elem.byteRange,
        get (Text.trim (joined cuts tail)) (shifted (lead cuts) elem.byteRange)⟩ :
          UserTextElement)) =
      elementsFrom 0 (trimmed (cuts, tail)).1 := by
  have ranges := map_shifted_trimmed cuts tail
  refine elements_ext ?_ ?_
  · rw [List.map_map]
    exact ranges
  · have gets := get_elementsFrom [] (trimmed (cuts, tail)).1 (trimmed (cuts, tail)).2
    have zero : len ([] : Text) = 0 := rfl
    rw [List.nil_append, ← trim_joined inked tail, zero] at gets
    have stored : (trimmed (cuts, tail)).1.map placeholder =
        (trimmed (cuts, tail)).1.map fun cut => some cut.payload := by
      cases cuts with
      | nil => rfl
      | cons cut cuts =>
          obtain ⟨first, later⟩ := List.forall_mem_cons.mp shows
          exact congrArg₂ List.cons first (List.map_congr_left later)
    rw [placeholders_elementsFrom, stored, ← gets, List.map_map]
    have moved := congrArg (List.map (get (Text.trim (joined cuts tail)))) ranges
    rw [List.map_map, List.map_map] at moved
    exact moved

end Cut

end Trimming

/-! ## Putting pastes in -/

namespace Cut

/-- The payload that is put in place of each element: that of its label, if no element in front of
it has the label. -/
def putIn (pendingPastes : List (Text × Text)) : List Text → List Cut → List (Cut × Option Text)
  | _, [] => []
  | seen, cut :: cuts =>
      (cut, if seen.contains cut.label then none else pendingPastes.lookup cut.label) ::
        putIn pendingPastes (cut.label :: seen) cuts

/-- Put a text in front. -/
def prepend (front : Text) : List Cut × Text → List Cut × Text
  | ([], tail) => ([], front ++ tail)
  | (cut :: cuts, tail) =>
      ({ cut with gap := front ++ cut.gap } :: cuts, tail)

/-- The elements that stay, with what is put in as part of the text between them. -/
def merged : List (Cut × Option Text) → Text → List Cut × Text
  | [], tail => ([], tail)
  | (cut, some actual) :: pieces, tail => prepend (cut.gap ++ actual) (merged pieces tail)
  | (cut, none) :: pieces, tail =>
      let later := merged pieces tail
      ({ cut with placeholder := some cut.payload } :: later.1, later.2)

/-- The elements that stay, in the text that is submitted. -/
def submitted (pendingPastes : List (Text × Text)) (cuts : List Cut) (tail : Text) :
    List Cut × Text :=
  trimmed (merged (putIn pendingPastes [] cuts) tail)

variable {pendingPastes : List (Text × Text)} {cuts : List Cut} {pieces : List (Cut × Option Text)}
  {tail : Text}

theorem joined_prepend (front : Text) (text : List Cut × Text) :
    joined (prepend front text).1 (prepend front text).2 = front ++ joined text.1 text.2 := by
  obtain ⟨_ | ⟨cut, cuts⟩, tail⟩ := text
  · rfl
  · exact List.append_assoc front cut.gap _

theorem elementsFrom_prepend (offset : ℕ) (front : Text) (text : List Cut × Text) :
    elementsFrom offset (prepend front text).1 = elementsFrom (offset + len front) text.1 := by
  obtain ⟨_ | ⟨cut, cuts⟩, tail⟩ := text
  · rfl
  · simp [prepend, elementsFrom, Nat.add_assoc]

theorem joined_merged (pieces : List (Cut × Option Text)) (tail : Text) :
    joined (merged pieces tail).1 (merged pieces tail).2 = filled pieces tail := by
  induction pieces with
  | nil => rfl
  | cons piece pieces ih =>
      obtain ⟨cut, _ | actual⟩ := piece
      · rw [merged, joined_cons, ih]
        rfl
      · rw [merged, joined_prepend, ih, List.append_assoc]
        rfl

/-- The elements that are kept are those that stay. -/
theorem ranges_keptFrom (offset : ℕ) (pieces : List (Cut × Option Text)) (tail : Text) :
    (keptFrom offset pieces).map UserTextElement.byteRange =
      (elementsFrom offset (merged pieces tail).1).map UserTextElement.byteRange := by
  induction pieces generalizing offset with
  | nil => rfl
  | cons piece pieces ih =>
      obtain ⟨cut, _ | actual⟩ := piece
      · rw [keptFrom, merged, elementsFrom, List.map_cons, List.map_cons, ih]
      · rw [keptFrom, merged, elementsFrom_prepend, len_append, ← Nat.add_assoc, ih]

theorem payloads_prepend (front : Text) (text : List Cut × Text) :
    (prepend front text).1.map (fun cut => (cut.payload, cut.placeholder)) =
      text.1.map fun cut => (cut.payload, cut.placeholder) := by
  obtain ⟨_ | ⟨cut, cuts⟩, tail⟩ := text <;> rfl

/-- Exactly the elements that take no payload stay. -/
theorem payloads_merged (pieces : List (Cut × Option Text)) (tail : Text) :
    (merged pieces tail).1.map (fun cut => (cut.payload, cut.placeholder)) =
      (pieces.filter fun piece => piece.2.isNone).map fun piece =>
        (piece.1.payload, some piece.1.payload) := by
  induction pieces with
  | nil => rfl
  | cons piece pieces ih =>
      obtain ⟨cut, _ | actual⟩ := piece
      · rw [merged, List.map_cons, ih]
        rfl
      · rw [merged, payloads_prepend, ih]
        rfl

theorem map_fst_putIn (seen : List Text) (cuts : List Cut) :
    (putIn pendingPastes seen cuts).map Prod.fst = cuts := by
  induction cuts generalizing seen with
  | nil => rfl
  | cons cut cuts ih => exact congrArg (cut :: ·) (ih _)

/-- The elements that stay show their payloads. -/
theorem mem_merged {cut : Cut} (member : cut ∈ (merged pieces tail).1) :
    cut.placeholder = some cut.payload ∧ ∃ old ∈ pieces.map Prod.fst, old.payload =
      cut.payload := by
  have there := List.mem_map_of_mem (f := fun cut : Cut => (cut.payload, cut.placeholder)) member
  rw [payloads_merged] at there
  obtain ⟨piece, kept, same⟩ := List.mem_map.mp there
  obtain ⟨payload, placeholder⟩ := Prod.mk.inj same
  exact ⟨payload ▸ placeholder.symm, piece.1,
    List.mem_map_of_mem (List.mem_filter.mp kept).1, payload⟩

theorem indexByPlaceholder_of_nodup (distinct : (pendingPastes.map Prod.fst).Nodup)
    (placeholder : Text) :
    indexByPlaceholder pendingPastes placeholder = (pendingPastes.lookup placeholder).toList := by
  induction pendingPastes with
  | nil => rfl
  | cons paste pendingPastes ih =>
      obtain ⟨fresh, distinct⟩ := List.nodup_cons.mp distinct
      have rest := ih distinct
      rw [indexByPlaceholder] at rest
      rw [indexByPlaceholder, List.filter_cons, List.lookup_cons]
      by_cases same : paste.1 = placeholder
      · have absent : pendingPastes.lookup placeholder = none := by
          rw [List.lookup_eq_none_iff]
          intro other member
          have apart : placeholder ≠ other.1 := fun same' =>
            fresh (same.trans same' ▸ List.mem_map_of_mem member)
          exact bne_iff_ne.mpr apart
        rw [absent] at rest
        simp [same, rest]
      · have other : placeholder ≠ paste.1 := fun same' => same same'.symm
        rw [if_neg (by simpa using same), beq_false_of_ne other]
        exact rest

/-- With one payload for a label, only the first element with the label takes it. -/
theorem taking_eq_putIn (distinct : (pendingPastes.map Prod.fst).Nodup) (seen : List Text)
    (cuts : List Cut) :
    taking (fun label => if label ∈ seen then [] else indexByPlaceholder pendingPastes label) cuts =
      putIn pendingPastes seen cuts := by
  induction cuts generalizing seen with
  | nil => rfl
  | cons cut cuts ih =>
      have later := ih (cut.label :: seen)
      have index := indexByPlaceholder_of_nodup distinct cut.label
      have dropped (queue : Text → List Text) (none : queue cut.label = [])
          (others : ∀ label, label ≠ cut.label → queue label =
            if label ∈ seen then [] else indexByPlaceholder pendingPastes label) :
          queue = fun label =>
            if label ∈ cut.label :: seen then [] else indexByPlaceholder pendingPastes label := by
        funext label
        by_cases same : label = cut.label
        · simp [same, none]
        · simp [same, others label same]
      rw [putIn, taking]
      by_cases again : cut.label ∈ seen
      · rw [if_pos again, if_pos (List.contains_iff_mem.mpr again)]
        dsimp only
        rw [dropped _ (if_pos again) fun label _ => rfl, later]
      · rw [if_neg again, if_neg (mt List.contains_iff_mem.mp again), index]
        cases found : pendingPastes.lookup cut.label with
        | none =>
            rw [found] at index
            dsimp only [Option.toList]
            rw [dropped _ ((if_neg again).trans index) fun label _ => rfl, later]
        | some actual =>
            dsimp only [Option.toList]
            rw [dropped _ (Function.update_self _ _ _)
              fun label apart => Function.update_of_ne apart _ _, later]

theorem putIn_nil (seen : List Text) (cuts : List Cut) :
    putIn [] seen cuts = cuts.map fun cut => (cut, none) := by
  induction cuts generalizing seen with
  | nil => rfl
  | cons cut cuts ih =>
      rw [putIn, ih, List.map_cons, List.lookup_nil, ite_self]

theorem filled_putIn_nil (seen : List Text) (cuts : List Cut) (tail : Text) :
    filled (putIn [] seen cuts) tail = joined cuts tail := by
  rw [putIn_nil]
  induction cuts with
  | nil => rfl
  | cons cut cuts ih =>
      exact congrArg (fun rest => cut.gap ++ (cut.payload ++ rest)) ih

theorem ranges_keptFrom_nil (offset : ℕ) (seen : List Text) (cuts : List Cut) :
    (keptFrom offset (putIn [] seen cuts)).map UserTextElement.byteRange =
      (elementsFrom offset cuts).map UserTextElement.byteRange := by
  rw [putIn_nil]
  induction cuts generalizing offset with
  | nil => rfl
  | cons cut cuts ih =>
      rw [List.map_cons, keptFrom, elementsFrom, List.map_cons, List.map_cons, ih]

end Cut

/-! ## Submission -/

section Submission

variable {text tail : Text} {elements : List UserTextElement} {pendingPastes : List (Text × Text)}
  {cuts : List Cut}

/-- Elements that are disjoint, in whatever order, cut the text once they are sorted. -/
theorem exists_cuts_sorted
    (placed : ∀ elem ∈ elements, isCharBoundary text elem.byteRange.start = true ∧
      isCharBoundary text elem.byteRange.stop = true)
    (inked : ∀ elem ∈ elements, Inked (slice text elem.byteRange))
    (disjoint : elements.Pairwise fun elem other =>
      elem.byteRange.stop ≤ other.byteRange.start ∨
        other.byteRange.stop ≤ elem.byteRange.start) :
    ∃ cuts tail, text = Cut.joined cuts tail ∧
      sortByKey (fun elem => elem.byteRange.start) elements = Cut.elementsFrom 0 cuts ∧
      ∀ cut ∈ cuts, Inked cut.payload := by
  have wide : ∀ elem ∈ elements, elem.byteRange.start < elem.byteRange.stop := by
    intro elem member
    by_contra narrow
    have none : elem.byteRange.stop - elem.byteRange.start = 0 := by omega
    refine (inked elem member).nonempty ?_
    have short : len (slice text elem.byteRange) ≤ elem.byteRange.stop - elem.byteRange.start :=
      Offsets.extent_front_le _ _
    exact Offsets.eq_nil_of_extent_eq_zero Char.utf8Size_pos (by
      change len (slice text elem.byteRange) = 0
      omega)
  have sorted := pairwise_sortByKey (fun elem : UserTextElement => elem.byteRange.start) elements
  have apart := disjoint.perm (perm_sortByKey (fun elem => elem.byteRange.start) elements).symm
    fun either => either.symm
  have zero : len ([] : Text) = 0 := rfl
  obtain ⟨cuts, tail, whole, cut⟩ := Cut.exists_cuts [] text
    (sortByKey (fun elem => elem.byteRange.start) elements) (fun elem member => by
      have old := mem_sortByKey.mp member
      exact ⟨_, _, by rw [zero, Nat.zero_add, Nat.zero_add], (wide elem old).le,
        isCharBoundary_iff.mp (placed elem old).1, isCharBoundary_iff.mp (placed elem old).2⟩)
    ((sorted.and apart).imp_of_mem fun {elem later} first second both => by
      have there := wide later (mem_sortByKey.mp second)
      omega)
  refine ⟨cuts, tail, whole, cut, fun own member => ?_⟩
  have gets := Cut.get_elementsFrom [] cuts tail
  rw [List.nil_append, ← whole, ← cut] at gets
  have payload : some own.payload ∈ cuts.map fun cut => some cut.payload :=
    List.mem_map_of_mem (f := fun cut : Cut => some cut.payload) member
  rw [← gets] at payload
  obtain ⟨elem, there, shows⟩ := List.mem_map.mp payload
  have old := mem_sortByKey.mp there
  rw [get, if_pos ⟨(wide elem old).le, placed elem old⟩] at shows
  exact Option.some.inj shows ▸ inked elem old

/-- Expansion puts every payload in place of the first element with its label. -/
theorem expandPendingPastes_putIn (whole : text = Cut.joined cuts tail)
    (sorted : sortByKey (fun elem => elem.byteRange.start) elements = Cut.elementsFrom 0 cuts)
    (distinct : (pendingPastes.map Prod.fst).Nodup) (pending : pendingPastes ≠ []) :
    (expandPendingPastes text elements pendingPastes).1 =
        Cut.filled (Cut.putIn pendingPastes [] cuts) tail ∧
      (expandPendingPastes text elements pendingPastes).2.map UserTextElement.byteRange =
        (Cut.elementsFrom 0 (Cut.merged (Cut.putIn pendingPastes [] cuts) tail).1).map
          UserTextElement.byteRange := by
  by_cases present : elements = []
  · obtain rfl : cuts = [] := by
      cases cuts with
      | nil => rfl
      | cons cut cuts =>
          rw [present] at sorted
          cases sorted
    rw [expandPendingPastes, if_pos (by simp [present]), whole, present]
    exact ⟨rfl, rfl⟩
  · have taken : Cut.taking (indexByPlaceholder pendingPastes) cuts =
        Cut.putIn pendingPastes [] cuts := by
      have taken := Cut.taking_eq_putIn distinct [] cuts
      simpa using taken
    rw [expandPendingPastes_eq pending present whole sorted, taken]
    exact ⟨rfl, Cut.ranges_keptFrom 0 _ tail⟩

/-- Elements with the ranges of a cut text are the elements of the trimmed text. -/
theorem trimTextElements_of_ranges (inked : ∀ cut ∈ cuts, Inked cut.payload)
    (shows : ∀ cut ∈ cuts, cut.placeholder = some cut.payload)
    (ranges : elements.map UserTextElement.byteRange =
      (Cut.elementsFrom 0 cuts).map UserTextElement.byteRange) (tail : Text) :
    trimTextElements (Cut.joined cuts tail) (Text.trim (Cut.joined cuts tail)) elements =
      Cut.elementsFrom 0 (Cut.trimmed (cuts, tail)).1 := by
  have moved := congrArg (List.map fun range => (⟨Cut.shifted (Cut.lead cuts) range,
    get (Text.trim (Cut.joined cuts tail)) (Cut.shifted (Cut.lead cuts) range)⟩ :
      UserTextElement)) ranges
  rw [List.map_map, List.map_map] at moved
  rw [Cut.trimTextElements_eq inked tail fun elem member => ranges ▸ List.mem_map_of_mem member,
    ← Cut.map_trimmed inked shows tail]
  exact moved

/-- In whatever order the elements come, each shows in the trimmed text what it showed before. -/
theorem trimTextElements_of_perm (inked : ∀ cut ∈ cuts, Inked cut.payload)
    (shows : ∀ cut ∈ cuts, cut.placeholder = some cut.payload)
    (ranges : (elements.map UserTextElement.byteRange).Perm
      ((Cut.elementsFrom 0 cuts).map UserTextElement.byteRange)) (tail : Text) :
    (trimTextElements (Cut.joined cuts tail) (Text.trim (Cut.joined cuts tail)) elements).Perm
        (Cut.elementsFrom 0 (Cut.trimmed (cuts, tail)).1) ∧
      (trimTextElements (Cut.joined cuts tail) (Text.trim (Cut.joined cuts tail)) elements).map
          (fun elem => get (Text.trim (Cut.joined cuts tail)) elem.byteRange) =
        elements.map fun elem => get (Cut.joined cuts tail) elem.byteRange := by
  have moved := ranges.map fun range => (⟨Cut.shifted (Cut.lead cuts) range,
    get (Text.trim (Cut.joined cuts tail)) (Cut.shifted (Cut.lead cuts) range)⟩ :
      UserTextElement)
  rw [List.map_map, List.map_map] at moved
  rw [Cut.trimTextElements_eq inked tail fun elem member =>
    ranges.subset (List.mem_map_of_mem member)]
  refine ⟨?_, ?_⟩
  · rw [← Cut.map_trimmed inked shows tail]
    exact moved
  · have before := Cut.get_elementsFrom [] cuts tail
    have after := congrArg (List.map UserTextElement.placeholder)
      (Cut.map_trimmed inked shows tail)
    have payloads : (Cut.trimmed (cuts, tail)).1.map Cut.placeholder =
        cuts.map fun cut => some cut.payload := by
      rw [← List.map_congr_left shows]
      cases cuts <;> rfl
    have zero : len ([] : Text) = 0 := rfl
    rw [Cut.placeholders_elementsFrom, payloads, ← before, List.map_map, zero,
      List.nil_append] at after
    rw [List.map_map]
    refine List.map_congr_left fun elem member => ?_
    obtain ⟨old, there, same⟩ := List.mem_map.mp (ranges.subset (List.mem_map_of_mem member))
    have own := List.map_inj_left.mp after old there
    dsimp only [Function.comp_apply] at own ⊢
    rwa [← same]

theorem kept_merged (inked : ∀ cut ∈ cuts, Inked cut.payload)
    (pendingPastes : List (Text × Text)) (tail : Text) :
    ∀ cut ∈ (Cut.merged (Cut.putIn pendingPastes [] cuts) tail).1,
      Inked cut.payload ∧ cut.placeholder = some cut.payload := by
  intro cut member
  obtain ⟨shows, old, there, same⟩ := Cut.mem_merged member
  rw [Cut.map_fst_putIn] at there
  exact ⟨same ▸ inked old there, shows⟩

/-- Submission yields the trimmed text with every payload in place of the first element with its
label, and exactly the other elements: they cut the trimmed text and show their payloads, in the
order of the text, or in the given order when no paste is pending. -/
theorem submitted_elements
    (placed : ∀ elem ∈ elements, isCharBoundary text elem.byteRange.start = true ∧
      isCharBoundary text elem.byteRange.stop = true)
    (inked : ∀ elem ∈ elements, Inked (slice text elem.byteRange))
    (disjoint : elements.Pairwise fun elem other =>
      elem.byteRange.stop ≤ other.byteRange.start ∨ other.byteRange.stop ≤ elem.byteRange.start)
    (distinct : (pendingPastes.map Prod.fst).Nodup) :
    ∃ cuts tail, text = Cut.joined cuts tail ∧
      sortByKey (fun elem => elem.byteRange.start) elements = Cut.elementsFrom 0 cuts ∧
      let submitted := Cut.submitted pendingPastes cuts tail
      let result := prepareSubmissionText text elements pendingPastes
      result.1 = Text.trim (Cut.filled (Cut.putIn pendingPastes [] cuts) tail) ∧
      result.1 = Cut.joined submitted.1 submitted.2 ∧
      result.2.Perm (Cut.elementsFrom 0 submitted.1) ∧
      submitted.1.map (fun cut => (cut.payload, cut.placeholder)) =
        ((Cut.putIn pendingPastes [] cuts).filter fun piece => piece.2.isNone).map
          (fun piece => (piece.1.payload, some piece.1.payload)) ∧
      (pendingPastes ≠ [] → result.2 = Cut.elementsFrom 0 submitted.1) ∧
      (pendingPastes = [] → result.2.map (fun elem => get result.1 elem.byteRange) =
        elements.map fun elem => get text elem.byteRange) := by
  obtain ⟨cuts, tail, whole, sorted, cutInked⟩ := exists_cuts_sorted placed inked disjoint
  let pieces := Cut.putIn pendingPastes [] cuts
  have kept := kept_merged cutInked pendingPastes tail
  have mergedInked := fun cut member => (kept cut member).1
  have shows := fun cut member => (kept cut member).2
  have merged := Cut.joined_merged pieces tail
  have trimmed := Cut.trim_joined mergedInked (Cut.merged pieces tail).2
  have payloads : (Cut.submitted pendingPastes cuts tail).1.map
      (fun cut => (cut.payload, cut.placeholder)) =
        (pieces.filter fun piece => piece.2.isNone).map
          fun piece => (piece.1.payload, some piece.1.payload) :=
    (Cut.payloads_trimmed _ _).trans (Cut.payloads_merged pieces tail)
  refine ⟨cuts, tail, whole, sorted, ?_⟩
  by_cases pending : pendingPastes = []
  · subst pending
    have asIs : Cut.filled pieces tail = text := whole ▸ Cut.filled_putIn_nil [] cuts tail
    have result : prepareSubmissionText text elements [] =
        (Text.trim text, trimTextElements text (Text.trim text) elements) := by
      rw [prepareSubmissionText, if_pos List.isEmpty_nil]
    have ranges : (elements.map UserTextElement.byteRange).Perm
        ((Cut.elementsFrom 0 (Cut.merged pieces tail).1).map UserTextElement.byteRange) := by
      rw [← Cut.ranges_keptFrom 0 pieces tail, Cut.ranges_keptFrom_nil, ← sorted]
      exact (perm_sortByKey _ _).symm.map _
    obtain ⟨moved, same⟩ :=
      trimTextElements_of_perm mergedInked shows ranges (Cut.merged pieces tail).2
    rw [merged, asIs] at moved same trimmed
    rw [result]
    exact ⟨by rw [asIs], trimmed, moved, payloads, fun present => absurd rfl present,
      fun _ => same⟩
  · obtain ⟨expanded, ranges⟩ := expandPendingPastes_putIn whole sorted distinct pending
    have elements' :=
      trimTextElements_of_ranges mergedInked shows ranges (Cut.merged pieces tail).2
    have result : prepareSubmissionText text elements pendingPastes =
        (Text.trim (Cut.filled pieces tail),
          Cut.elementsFrom 0 (Cut.submitted pendingPastes cuts tail).1) := by
      rw [merged] at elements'
      rw [prepareSubmissionText, if_neg (by simpa using pending)]
      dsimp only
      rw [expanded, elements']
      rfl
    rw [result]
    exact ⟨rfl, merged ▸ trimmed, .refl _, payloads, fun _ => rfl,
      fun none => absurd none pending⟩

/-- A paste between an image and white space. -/
def imageAndPaste : Text := " [Image #1] é[Pasted Content 1001 chars] ".toList

theorem submitted_elements_imageAndPaste :
    ∃ cuts tail, imageAndPaste = Cut.joined cuts tail ∧
      sortByKey (fun elem : UserTextElement => elem.byteRange.start)
        [⟨⟨14, 41⟩, none⟩, ⟨⟨1, 11⟩, none⟩] = Cut.elementsFrom 0 cuts ∧
      let pendingPastes := [("[Pasted Content 1001 chars]".toList, "pasted ".toList)]
      let submitted := Cut.submitted pendingPastes cuts tail
      let result := prepareSubmissionText imageAndPaste
        [⟨⟨14, 41⟩, none⟩, ⟨⟨1, 11⟩, none⟩] pendingPastes
      result.1 = Text.trim (Cut.filled (Cut.putIn pendingPastes [] cuts) tail) ∧
      result.1 = Cut.joined submitted.1 submitted.2 ∧
      result.2.Perm (Cut.elementsFrom 0 submitted.1) ∧
      submitted.1.map (fun cut => (cut.payload, cut.placeholder)) =
        ((Cut.putIn pendingPastes [] cuts).filter fun piece => piece.2.isNone).map
          (fun piece => (piece.1.payload, some piece.1.payload)) ∧
      (pendingPastes ≠ [] → result.2 = Cut.elementsFrom 0 submitted.1) ∧
      (pendingPastes = [] → result.2.map (fun elem => get result.1 elem.byteRange) =
        [⟨⟨14, 41⟩, none⟩, ⟨⟨1, 11⟩, none⟩].map fun elem : UserTextElement =>
          get imageAndPaste elem.byteRange) := by
  refine submitted_elements (by decide) (fun elem member => ?_) (by decide) (by decide)
  obtain rfl | rfl : elem = ⟨⟨14, 41⟩, none⟩ ∨ elem = ⟨⟨1, 11⟩, none⟩ := by simpa using member
  all_goals exact Inked.of_ends '[' ']' (by decide) (by decide) (by decide) (by decide)

/-- An element without text is dropped, and of two elements with one label only the first takes the
paste. -/
theorem prepareSubmissionText_empty_and_repeated :
    slice ['a'] ⟨0, 0⟩ = [] ∧
      prepareSubmissionText ['a'] [⟨⟨0, 0⟩, some []⟩] [] = (['a'], []) ∧
      prepareSubmissionText "[P][P]".toList [⟨⟨0, 3⟩, none⟩, ⟨⟨3, 6⟩, none⟩]
          [("[P]".toList, ['p'])] =
        ("p[P]".toList, [⟨⟨1, 4⟩, some "[P]".toList⟩]) := by
  decide

end Submission

end CodexPilot.Composer
