import CodexPilot.Composer.Elements
import CodexPilot.Library.Replacing

/-!
# Labels of attached images

Local images are numbered behind the remote ones, and are renamed one after the other when those
change.  Each renaming finds the element by its text, so it finds the right one exactly when no
image in front of it in the text has just got the label that is looked for.
-/

namespace CodexPilot.Composer

open RustStd

/-- `AttachedImage`. -/
structure AttachedImage where
  placeholder : Text
  path : Text

/-- `local_image_label_text`. -/
def localImageLabelText (labelNumber : ℕ) : Text :=
  "[Image #".toList ++ (Nat.toDigits 10 labelNumber ++ ['\x5d'])

/-- What of `ChatComposer` the labels of images act on. -/
structure ImageDraft where
  textarea : TextArea
  attachedImages : List AttachedImage
  remoteImageUrls : List Text

/-- The label that an image is to have behind the remote ones. -/
def expectedLabel (urls : List Text) (idx : ℕ) : Text := localImageLabelText (urls.length + idx + 1)

namespace ImageDraft

/-- The body of the loop of `relabel_attached_images_and_update_placeholders`. -/
def relabelImage (draft : ImageDraft) (idx : ℕ) : ImageDraft :=
  match draft.attachedImages[idx]? with
  | none => draft
  | some image =>
      let expected := expectedLabel draft.remoteImageUrls idx
      if image.placeholder = expected then draft
      else
        { draft with
          attachedImages := draft.attachedImages.set idx
            { image with placeholder := expected }
          textarea := draft.textarea.replaceElementPayload image.placeholder expected }

/-- `relabel_attached_images_and_update_placeholders`. -/
def relabelAttachedImagesAndUpdatePlaceholders (draft : ImageDraft) : ImageDraft :=
  (List.range draft.attachedImages.length).foldl relabelImage draft

/-- `set_remote_image_urls`. -/
def setRemoteImageUrls (draft : ImageDraft) (urls : List Text) : ImageDraft :=
  relabelAttachedImagesAndUpdatePlaceholders
    { draft with remoteImageUrls := urls }

/-- The elements of the text, with their ids and payloads. -/
def labels (draft : ImageDraft) : List (ℕ × Text) :=
  labelled draft.textarea.text draft.textarea.elements

end ImageDraft

/-! ## Renaming entries -/

section Renaming

variable {entries : List (ℕ × Text)} {old new payload : Text} {renames done : List (Text × Text)}
  {rename : Text × Text} {place : ℕ}

/-- The first entry with a payload gets another one. -/
def renameFirst (old new : Text) (entries : List (ℕ × Text)) : List (ℕ × Text) :=
  entries.modify (entries.findIdx fun entry => entry.2 == old) fun entry => (entry.1, new)

/-- Rename, unless the payload is the new one already. -/
def renameOne (entries : List (ℕ × Text)) (rename : Text × Text) : List (ℕ × Text) :=
  if rename.1 = rename.2 then entries else renameFirst rename.1 rename.2 entries

/-- Rename one after the other. -/
def renameAll (renames : List (Text × Text)) (entries : List (ℕ × Text)) : List (ℕ × Text) :=
  renames.foldl renameOne entries

/-- The payload at a place. -/
def payloadAt (entries : List (ℕ × Text)) (place : ℕ) : Option Text :=
  entries[place]?.map Prod.snd

/-- Rename an entry by all renames at once. -/
def renamed (renames : List (Text × Text)) (entry : ℕ × Text) : ℕ × Text :=
  (entry.1, (renames.lookup entry.2).getD entry.2)

/-- No entry gets the payload that is looked for later in an entry behind it. -/
def Clear (entries : List (ℕ × Text)) (renames : List (Text × Text)) : Prop :=
  renames.Pairwise fun rename later => rename.2 = later.1 →
    ∀ place other, payloadAt entries place = some rename.1 →
      payloadAt entries other = some later.1 → other < place

theorem renameFirst_cons (entry : ℕ × Text) :
    renameFirst old new (entry :: entries) =
      if entry.2 = old then (entry.1, new) :: entries
      else entry :: renameFirst old new entries := by
  rw [renameFirst, List.findIdx_cons]
  by_cases same : entry.2 = old
  · simp [same]
  · simp [same, beq_false_of_ne same, renameFirst]

theorem renameFirst_append {front : List (ℕ × Text)} (absent : ∀ entry ∈ front, entry.2 ≠ old)
    (rest : List (ℕ × Text)) (new : Text) :
    renameFirst old new (front ++ rest) = front ++ renameFirst old new rest := by
  induction front with
  | nil => rfl
  | cons entry front ih =>
      obtain ⟨first, later⟩ := List.forall_mem_cons.mp absent
      rw [List.cons_append, renameFirst_cons, if_neg first, ih later, List.cons_append]

/-- The first entry with a payload is the one at a place. -/
theorem renameFirst_eq (here : payloadAt entries place = some old)
    (first : ∀ other < place, payloadAt entries other ≠ some old) :
    renameFirst old new entries = entries.modify place fun entry => (entry.1, new) := by
  obtain ⟨entry, found, own⟩ := Option.map_eq_some_iff.mp here
  obtain ⟨within, atPlace⟩ := List.getElem?_eq_some_iff.mp found
  have index : entries.findIdx (fun entry => entry.2 == old) = place := by
    refine (List.findIdx_eq within).mpr ⟨?_, fun other before => ?_⟩
    · rw [atPlace, own]
      exact beq_self_eq_true old
    · refine beq_false_of_ne fun same => first other before ?_
      rw [payloadAt, List.getElem?_eq_getElem (before.trans within), Option.map_some, same]
  rw [renameFirst, index]

theorem payloadAt_map (entries : List (ℕ × Text)) (place : ℕ) :
    payloadAt (entries.map (renamed renames)) place =
      (payloadAt entries place).map fun payload => (renames.lookup payload).getD payload := by
  rw [payloadAt, payloadAt, List.getElem?_map, Option.map_map, Option.map_map]
  rfl

/-- Where a renamed entry has a payload, it had that payload or one that is renamed to it. -/
theorem payloadAt_map_eq_some (has : payloadAt (entries.map (renamed done)) place = some payload) :
    payloadAt entries place = some payload ∨
      ∃ before, (before, payload) ∈ done ∧ payloadAt entries place = some before := by
  rw [payloadAt_map] at has
  obtain ⟨before, found, same⟩ := Option.map_eq_some_iff.mp has
  cases looked : done.lookup before with
  | none =>
      rw [looked, Option.getD_none] at same
      exact .inl (same ▸ found)
  | some after =>
      rw [looked, Option.getD_some] at same
      subst same
      obtain ⟨front, back, rfl, -⟩ := List.lookup_eq_some_iff.mp looked
      exact .inr ⟨before, by simp, found⟩

/-- A renaming that finds the right entry. -/
theorem renameOne_map (fresh : rename.1 ∉ done.map Prod.fst)
    (own : payloadAt entries place = some rename.1)
    (only : ∀ other, payloadAt entries other = some rename.1 → other = place)
    (clear : ∀ earlier ∈ done, earlier.2 = rename.1 →
      ∀ other, payloadAt entries other = some earlier.1 → place < other) :
    renameOne (entries.map (renamed done)) rename = entries.map (renamed (done ++ [rename])) := by
  have unnamed : done.lookup rename.1 = none := by
    rw [List.lookup_eq_none_iff]
    intro earlier member
    exact bne_iff_ne.mpr fun same => fresh (same ▸ List.mem_map_of_mem member)
  have others {entry : ℕ × Text} (differs : entry.2 ≠ rename.1) :
      renamed (done ++ [rename]) entry = renamed done entry := by
    rw [renamed, renamed, List.lookup_append, List.lookup_cons, beq_false_of_ne differs,
      List.lookup_nil, Option.or_none]
  have target {id : ℕ} : renamed (done ++ [rename]) (id, rename.1) = (id, rename.2) := by
    rw [renamed, List.lookup_append, unnamed, Option.none_or, List.lookup_cons_self,
      Option.getD_some]
  have before {id : ℕ} : renamed done (id, rename.1) = (id, rename.1) := by
    rw [renamed, unnamed, Option.getD_none]
  rw [renameOne]
  split
  case isTrue same =>
    refine List.map_congr_left fun entry member => ?_
    by_cases differs : entry.2 = rename.1
    · obtain ⟨id, payload⟩ := entry
      cases differs
      rw [before, target, ← same]
    · rw [others differs]
  case isFalse =>
    have shows : payloadAt (entries.map (renamed done)) place = some rename.1 := by
      rw [payloadAt_map, own, Option.map_some, unnamed, Option.getD_none]
    have foremost : ∀ other < place,
        payloadAt (entries.map (renamed done)) other ≠ some rename.1 := by
      intro other inFront has
      obtain same | ⟨payload, earlier, has'⟩ := payloadAt_map_eq_some has
      · exact inFront.ne (only other same)
      · exact absurd (clear _ earlier rfl other has') (by omega)
    rw [renameFirst_eq shows foremost]
    refine List.ext_getElem? fun other => ?_
    rw [List.getElem?_modify, List.getElem?_map, List.getElem?_map]
    by_cases here : place = other
    · subst here
      obtain ⟨entry, found, payload⟩ := Option.map_eq_some_iff.mp own
      obtain ⟨id, _⟩ := entry
      cases payload
      rw [found, Option.map_some, Option.map_some, before, target]
      simp
    · simp only [here, if_false]
      cases found : entries[other]? with
      | none => rfl
      | some entry =>
          have differs : entry.2 ≠ rename.1 := fun same =>
            here (only other (by rw [payloadAt, found, Option.map_some, same])).symm
          rw [Option.map_some, Option.map_some, others differs]
          rfl

theorem renameAll_append (renames later : List (Text × Text)) (entries : List (ℕ × Text)) :
    renameAll (renames ++ later) entries = renameAll later (renameAll renames entries) :=
  List.foldl_append

theorem payloadAt_renameOne (entries : List (ℕ × Text)) (rename : Text × Text) (place : ℕ) :
    payloadAt (renameOne entries rename) place = payloadAt entries place ∨
      payloadAt (renameOne entries rename) place = some rename.2 := by
  rw [renameOne]
  split
  case isTrue => exact .inl rfl
  case isFalse =>
    rw [renameFirst, payloadAt, List.getElem?_modify, payloadAt]
    cases entries[place]? with
    | none => exact .inl rfl
    | some entry =>
        by_cases here : entries.findIdx (fun entry => entry.2 == rename.1) = place
        · exact .inr (by simp [here])
        · exact .inl (by simp [here])

/-- A payload that is no longer given does not come back. -/
theorem payloadAt_renameAll_ne (other : ∀ rename ∈ renames, rename.2 ≠ payload)
    (away : payloadAt entries place ≠ some payload) :
    payloadAt (renameAll renames entries) place ≠ some payload := by
  induction renames generalizing entries with
  | nil => exact away
  | cons rename renames ih =>
      obtain ⟨first, later⟩ := List.forall_mem_cons.mp other
      refine ih later ?_
      obtain same | given := payloadAt_renameOne entries rename place
      · rw [same]
        exact away
      · rw [given]
        exact fun same => first (Option.some.inj same)

/-- Renaming keeps the ids. -/
theorem ids_renameAll (renames : List (Text × Text)) (entries : List (ℕ × Text)) :
    (renameAll renames entries).map Prod.fst = entries.map Prod.fst := by
  induction renames generalizing entries with
  | nil => rfl
  | cons rename renames ih =>
      refine (ih _).trans ?_
      rw [renameOne]
      split
      · rfl
      · refine List.ext_getElem? fun place => ?_
        rw [renameFirst, List.getElem?_map, List.getElem?_modify, List.getElem?_map]
        cases entries[place]? with
        | none => rfl
        | some entry =>
            by_cases here : entries.findIdx (fun entry => entry.2 == rename.1) = place
            · simp [here]
            · simp [here]

section Once

variable (distinct : (renames.map Prod.fst).Nodup)
  (once : ∀ rename ∈ renames, ∃! place, payloadAt entries place = some rename.1)

include distinct once

/-- Clear renames are made at once. -/
theorem renameAll_eq_map (clear : Clear entries renames) :
    renameAll renames entries = entries.map (renamed renames) := by
  induction renames using List.reverseRecOn with
  | nil =>
      refine (List.map_id entries).symm.trans (List.map_congr_left fun entry _ => ?_)
      rfl
  | append_singleton renames rename ih =>
      rw [List.map_append, List.nodup_append] at distinct
      obtain ⟨rest, -, last⟩ := List.pairwise_append.mp clear
      obtain ⟨place, own, only⟩ := once rename (by simp)
      have earlier := ih distinct.1 (fun other member =>
        once other (List.mem_append_left _ member)) rest
      rw [renameAll_append, earlier]
      refine renameOne_map (fun member => distinct.2.2 _ member _ (by simp) rfl) own only ?_
      intro other member same place' has
      exact last other member rename (by simp) same place' place has own

/-- Renames that give every entry what it is to have are clear. -/
theorem clear_of_renameAll (others : (renames.map Prod.snd).Nodup)
    (given : ∀ rename ∈ renames, ∀ place, payloadAt entries place = some rename.1 →
      payloadAt (renameAll renames entries) place = some rename.2)
    {done later : List (Text × Text)} (split : renames = done ++ later) : Clear entries done := by
  induction done using List.reverseRecOn generalizing later with
  | nil => exact .nil
  | append_singleton done rename ih =>
      have earlier := ih (split.trans (List.append_assoc done [rename] later))
      refine List.pairwise_append.mpr ⟨earlier, List.pairwise_singleton _ _, ?_⟩
      intro first member last isLast same place place' has own
      obtain rfl := List.mem_singleton.mp isLast
      subst split
      have firstIn : first ∈ done ++ [last] ++ later := by simp [member]
      have lastIn : last ∈ done ++ [last] ++ later := by simp
      have keys := List.inj_on_of_nodup_map distinct
      have values := List.inj_on_of_nodup_map others
      rw [List.map_append, List.map_append, List.nodup_append, List.nodup_append] at distinct others
      have apart : first.1 ≠ last.1 := distinct.1.2.2 _ (List.mem_map_of_mem member) _ (by simp)
      have differ : last.1 ≠ last.2 := fun same' =>
        others.1.2.2 _ (List.mem_map_of_mem member) _ (by simp) (same.trans same')
      by_contra behind
      have inFront : place < place' := by
        refine lt_of_le_of_ne (Nat.le_of_not_lt behind) ?_
        rintro rfl
        exact apart (Option.some.inj (has.symm.trans own))
      -- At its turn, the last renaming finds the entry of the first one.
      have mapped := renameAll_eq_map distinct.1.1
        (fun other there => once other (by simp [there])) earlier
      have found : payloadAt (entries.map (renamed done)) place = some last.1 := by
        rw [payloadAt_map, has, Option.map_some, Replacing.lookup_of_mem distinct.1.1 member,
          Option.getD_some, same]
      have foremost : ∀ other < place,
          payloadAt (entries.map (renamed done)) other ≠ some last.1 := by
        intro other before there
        obtain whole | ⟨payload, pair, there'⟩ := payloadAt_map_eq_some there
        · have alike := (once last lastIn).unique whole own
          omega
        · have pairIn : (payload, last.1) ∈ done ++ [last] ++ later := by simp [pair]
          have twin := values pairIn firstIn same.symm
          have alike := (once first firstIn).unique
            (there'.trans (congrArg (fun pair => some pair.1) twin)) has
          omega
      have taken : payloadAt (renameOne (entries.map (renamed done)) last) place = some last.2 := by
        obtain ⟨entry, there, -⟩ := Option.map_eq_some_iff.mp found
        rw [renameOne, if_neg differ, renameFirst_eq found foremost, payloadAt,
          List.getElem?_modify,
          there]
        simp
      have final := given first firstIn place has
      rw [renameAll_append, renameAll_append, mapped] at final
      refine payloadAt_renameAll_ne (fun other there same' => ?_) (fun same' => ?_) final
      · have among : first.2 ∈ done.map Prod.snd ++ [last].map Prod.snd :=
          List.mem_append_left _ (List.mem_map_of_mem member)
        exact others.2.2 _ among _ (List.mem_map_of_mem there) same'.symm
      · have same' : payloadAt (renameOne (entries.map (renamed done)) last) place =
            some first.2 := same'
        rw [taken] at same'
        exact differ (same.symm.trans (Option.some.inj same').symm)

/-- Renaming one after the other gives every entry what it is to have, exactly when the renames are
clear. -/
theorem renameAll_gives_iff (others : (renames.map Prod.snd).Nodup) :
    (∀ rename ∈ renames, ∀ place, payloadAt entries place = some rename.1 →
      payloadAt (renameAll renames entries) place = some rename.2) ↔ Clear entries renames := by
  constructor
  · intro given
    exact clear_of_renameAll distinct once others given (List.append_nil renames).symm
  · intro clear rename member place has
    rw [renameAll_eq_map distinct once clear, payloadAt_map, has, Option.map_some,
      Replacing.lookup_of_mem distinct member, Option.getD_some]

end Once

end Renaming

/-! ## Relabelling -/

section Relabelling

variable {draft : ImageDraft} {area : TextArea} {images : List AttachedImage}

theorem localImageLabelText_injective : Function.Injective localImageLabelText := by
  intro number number' same
  have digits : Nat.toDigits 10 number = Nat.toDigits 10 number' :=
    List.append_cancel_right (List.append_cancel_left same)
  calc
    number = Nat.ofDigitChars 10 (Nat.toDigits 10 number) 0 := Nat.ofDigitChars_ten_toDigits.symm
    _ = Nat.ofDigitChars 10 (Nat.toDigits 10 number') 0 := by rw [digits]
    _ = number' := Nat.ofDigitChars_ten_toDigits

theorem localImageLabelText_ne_nil (labelNumber : ℕ) : localImageLabelText labelNumber ≠ [] := by
  intro empty
  have bracket := (List.append_eq_nil_iff.mp (List.append_eq_nil_iff.mp empty).2).2
  exact List.cons_ne_nil _ _ bracket

/-- Rename an element of a text area, unless it has its label already. -/
def renameElement (area : TextArea) (rename : Text × Text) : TextArea :=
  if rename.1 = rename.2 then area else area.replaceElementPayload rename.1 rename.2

/-- Replacing a payload renames the first entry that has it. -/
theorem labelled_renameElement (sound : Sound area) {rename : Text × Text}
    (nonempty : rename.2 ≠ []) :
    Sound (renameElement area rename) ∧
      labelled (renameElement area rename).text (renameElement area rename).elements =
        renameOne (labelled area.text area.elements) rename := by
  rw [renameElement, renameOne]
  split
  case isTrue => exact ⟨sound, rfl⟩
  case isFalse =>
    refine ⟨sound.replaceElementPayload nonempty rename.1, ?_⟩
    obtain ⟨atoms, shown⟩ := wellFormed_iff_shows.mp sound.wellFormed
    obtain ⟨same, absent⟩ | ⟨before, id, filled, after, rfl, absent, shown', -, -⟩ :=
      replaceElementPayload_cases shown nonempty rename.1
    · have whole := renameFirst_append absent [] rename.2
      rw [List.append_nil] at whole
      rw [same, labelled_of_shows shown, whole]
      exact (List.append_nil _).symm
    · have split (payload : Text) (nonempty : payload ≠ []) :
          (before ++ .element id payload nonempty :: after).filterMap Atom.label =
            before.filterMap Atom.label ++ (id, payload) :: after.filterMap Atom.label := by
        simp [Atom.label]
      rw [labelled_of_shows shown', labelled_of_shows shown, split, split,
        renameFirst_append absent, renameFirst_cons, if_pos rfl]

/-- Renaming elements one after the other renames their entries. -/
theorem labelled_foldl_renameElement (sound : Sound area) {renames : List (Text × Text)}
    (nonempty : ∀ rename ∈ renames, rename.2 ≠ []) :
    labelled (renames.foldl renameElement area).text (renames.foldl renameElement area).elements =
      renameAll renames (labelled area.text area.elements) := by
  induction renames generalizing area with
  | nil => rfl
  | cons rename renames ih =>
      obtain ⟨first, later⟩ := List.forall_mem_cons.mp nonempty
      obtain ⟨sound', renamed⟩ := labelled_renameElement sound first
      rw [List.foldl_cons, ih sound' later, renamed]
      rfl

/-- The labels that images from an index on have and are to have. -/
def renamesFrom (urls : List Text) (start : ℕ) (images : List AttachedImage) : List (Text × Text) :=
  images.mapIdx fun idx image => (image.placeholder, expectedLabel urls (start + idx))

/-- The images from an index on, with the labels that they are to have. -/
def relabelledFrom (urls : List Text) (start : ℕ) (images : List AttachedImage) :
    List AttachedImage :=
  images.mapIdx fun idx image =>
    { image with placeholder := expectedLabel urls (start + idx) }

namespace ImageDraft

/-- One round of the loop. -/
theorem relabelImage_eq (done : List AttachedImage) (image : AttachedImage)
    (later : List AttachedImage) (area : TextArea) (urls : List Text) :
    relabelImage ⟨area, done ++ image :: later, urls⟩ done.length =
      ⟨renameElement area (image.placeholder, expectedLabel urls done.length),
        done ++ ⟨expectedLabel urls done.length, image.path⟩ :: later, urls⟩ := by
  have here : (done ++ image :: later)[done.length]? = some image := by simp
  rw [relabelImage, here]
  dsimp only
  split
  case isTrue same =>
    rw [renameElement, if_pos same, ← same]
  case isFalse differ =>
    rw [renameElement, if_neg differ]
    simp

/-- The loop, behind the images that it has seen. -/
theorem foldl_relabelImage (done later : List AttachedImage) (area : TextArea) (urls : List Text) :
    (List.range' done.length later.length).foldl relabelImage ⟨area, done ++ later, urls⟩ =
      ⟨(renamesFrom urls done.length later).foldl renameElement area,
        done ++ relabelledFrom urls done.length later, urls⟩ := by
  induction later generalizing done area with
  | nil => rfl
  | cons image later ih =>
      have rest := ih (done ++ [⟨expectedLabel urls done.length, image.path⟩])
        (renameElement area (image.placeholder, expectedLabel urls done.length))
      rw [List.length_append, List.length_singleton, List.append_assoc, List.append_assoc] at rest
      rw [List.length_cons, List.range'_succ, List.foldl_cons, relabelImage_eq]
      refine rest.trans ?_
      have shift (idx : ℕ) : done.length + 1 + idx = done.length + (idx + 1) := by omega
      simp only [renamesFrom, relabelledFrom, List.mapIdx_cons, List.foldl_cons, shift]
      rfl

/-- Every image gets its label, and its element is looked for. -/
theorem setRemoteImageUrls_eq (draft : ImageDraft) (urls : List Text) :
    draft.setRemoteImageUrls urls =
      ⟨(renamesFrom urls 0 draft.attachedImages).foldl renameElement draft.textarea,
        relabelledFrom urls 0 draft.attachedImages, urls⟩ := by
  have whole := foldl_relabelImage [] draft.attachedImages draft.textarea urls
  rw [List.length_nil, ← List.range_eq_range'] at whole
  exact whole

/-- Every image has its new label, and so has the element that belonged to it. -/
def Keeps (draft after : ImageDraft) : Prop :=
  ∀ (idx : ℕ) (image : AttachedImage), draft.attachedImages[idx]? = some image →
    after.attachedImages[idx]? =
        some ⟨expectedLabel after.remoteImageUrls idx, image.path⟩ ∧
      ∀ place id : ℕ, draft.labels[place]? = some (id, image.placeholder) →
        after.labels[place]? = some (id, expectedLabel after.remoteImageUrls idx)

/-- No image gets the label that a later image still has while its element stands in front of the
one of that image. -/
def Unobstructed (draft : ImageDraft) (urls : List Text) : Prop :=
  ∀ (idx other : ℕ) (image later : AttachedImage), idx < other →
    draft.attachedImages[idx]? = some image → draft.attachedImages[other]? = some later →
    expectedLabel urls idx = later.placeholder →
      ∀ place place' : ℕ, payloadAt draft.labels place = some image.placeholder →
        payloadAt draft.labels place' = some later.placeholder → place' < place

theorem labels_setRemoteImageUrls (sound : Sound draft.textarea) (urls : List Text) :
    (draft.setRemoteImageUrls urls).labels =
      renameAll (renamesFrom urls 0 draft.attachedImages) draft.labels := by
  rw [setRemoteImageUrls_eq, labels, labelled_foldl_renameElement sound]
  · rfl
  · intro rename member
    obtain ⟨idx, within, rfl⟩ := List.mem_mapIdx.mp member
    exact localImageLabelText_ne_nil _

theorem getElem?_renamesFrom (urls : List Text) (idx : ℕ) :
    (renamesFrom urls 0 images)[idx]? =
      images[idx]?.map fun image => (image.placeholder, expectedLabel urls idx) := by
  rw [renamesFrom, List.getElem?_mapIdx]
  simp only [Nat.zero_add]

/-- The renames are clear when no image is obstructed. -/
theorem clear_iff (draft : ImageDraft) (urls : List Text) :
    Clear draft.labels (renamesFrom urls 0 draft.attachedImages) ↔ draft.Unobstructed urls := by
  rw [Clear, List.pairwise_iff_getElem]
  constructor
  · intro clear idx other image later before here there same place place' has has'
    obtain ⟨inside, rfl⟩ := List.getElem?_eq_some_iff.mp here
    obtain ⟨inside', rfl⟩ := List.getElem?_eq_some_iff.mp there
    have own := clear idx other (by rwa [renamesFrom, List.length_mapIdx])
      (by rwa [renamesFrom, List.length_mapIdx]) before
    simp only [renamesFrom, List.getElem_mapIdx, Nat.zero_add] at own
    exact own same place place' has has'
  · intro unobstructed idx other inside inside' before
    rw [renamesFrom, List.length_mapIdx] at inside inside'
    simp only [renamesFrom, List.getElem_mapIdx, Nat.zero_add]
    exact unobstructed idx other _ _ before (List.getElem?_eq_getElem inside)
      (List.getElem?_eq_getElem inside')

/-- After the urls are set, every image keeps its element exactly when none is obstructed. -/
theorem keeps_setRemoteImageUrls_iff (sound : Sound draft.textarea)
    (distinct : (draft.attachedImages.map AttachedImage.placeholder).Nodup)
    (once : ∀ image ∈ draft.attachedImages,
      ∃! place, payloadAt draft.labels place = some image.placeholder) (urls : List Text) :
    draft.Keeps (draft.setRemoteImageUrls urls) ↔ draft.Unobstructed urls := by
  let renames := renamesFrom urls 0 draft.attachedImages
  have keys : (renames.map Prod.fst).Nodup := by
    have same : renames.map Prod.fst = draft.attachedImages.map AttachedImage.placeholder := by
      refine List.ext_getElem? fun idx => ?_
      rw [List.getElem?_map, getElem?_renamesFrom, Option.map_map, List.getElem?_map]
      rfl
    rw [same]
    exact distinct
  have values : (renames.map Prod.snd).Nodup := by
    refine List.pairwise_iff_getElem.mpr fun idx other inside inside' before same => ?_
    simp only [renames, renamesFrom, List.getElem_map, List.getElem_mapIdx] at same
    have numbers := localImageLabelText_injective same
    omega
  have found : ∀ rename ∈ renames, ∃! place, payloadAt draft.labels place = some rename.1 := by
    intro rename member
    obtain ⟨idx, within, rfl⟩ := List.mem_mapIdx.mp member
    exact once _ (List.getElem_mem within)
  have images : (draft.setRemoteImageUrls urls).attachedImages =
      relabelledFrom urls 0 draft.attachedImages := by rw [setRemoteImageUrls_eq]
  have remote : (draft.setRemoteImageUrls urls).remoteImageUrls = urls := by
    rw [setRemoteImageUrls_eq]
  have ids := ids_renameAll renames draft.labels
  rw [← clear_iff, ← renameAll_gives_iff keys found values, Keeps,
    labels_setRemoteImageUrls sound, images, remote]
  constructor
  · intro keeps rename member place has
    obtain ⟨idx, within, rfl⟩ := List.mem_mapIdx.mp member
    obtain ⟨entry, there, payload⟩ := Option.map_eq_some_iff.mp has
    have own := (keeps idx _ (List.getElem?_eq_getElem within)).2 place entry.1
      (there.trans (congrArg some (Prod.ext rfl payload)))
    rw [payloadAt, own, Nat.zero_add]
    rfl
  · intro given idx image here
    refine ⟨?_, fun place id there => ?_⟩
    · rw [relabelledFrom, List.getElem?_mapIdx, here, Nat.zero_add]
      rfl
    · have member : (image.placeholder, expectedLabel urls idx) ∈ renames :=
        List.mem_of_getElem? (i := idx) (by rw [getElem?_renamesFrom, here]; rfl)
      have own := given _ member place (by rw [payloadAt, there]; rfl)
      obtain ⟨entry, after, payload⟩ := Option.map_eq_some_iff.mp own
      have same : (List.map Prod.fst (renameAll renames draft.labels))[place]? =
          (List.map Prod.fst draft.labels)[place]? := by rw [ids]
      rw [List.getElem?_map, List.getElem?_map, after, there] at same
      exact after.trans (congrArg some (Prod.ext (Option.some.inj same) payload))

/-- Two images in the order of the text. -/
def twoImages : ImageDraft where
  textarea := (TextArea.new.insertElement "[Image #1]".toList).insertElement "[Image #2]".toList
  attachedImages := [⟨"[Image #1]".toList, "a.png".toList⟩, ⟨"[Image #2]".toList, "b.png".toList⟩]
  remoteImageUrls := []

theorem sound_twoImages : Sound twoImages.textarea :=
  (sound_new.insertElement (by decide)).insertElement (by decide)

theorem labels_twoImages :
    twoImages.labels = [(1, "[Image #1]".toList), (2, "[Image #2]".toList)] := by
  decide

theorem once_twoImages : ∀ image ∈ twoImages.attachedImages,
    ∃! place, payloadAt twoImages.labels place = some image.placeholder := by
  intro image member
  rw [labels_twoImages]
  simp only [twoImages, List.mem_cons, List.not_mem_nil, or_false] at member
  obtain rfl | rfl := member
  · refine ⟨0, rfl, fun place has => ?_⟩
    match place with
    | 0 => rfl
    | 1 => exact absurd has (by decide)
    | place + 2 => simp [payloadAt] at has
  · refine ⟨1, rfl, fun place has => ?_⟩
    match place with
    | 0 => exact absurd has (by decide)
    | 1 => rfl
    | place + 2 => simp [payloadAt] at has

theorem keeps_setRemoteImageUrls_twoImages :
    twoImages.Keeps (twoImages.setRemoteImageUrls [['u'], ['v']]) := by
  refine (keeps_setRemoteImageUrls_iff sound_twoImages (by decide) once_twoImages _).mpr ?_
  intro idx other image later before here there same
  have inside : other < 2 := (List.getElem?_eq_some_iff.mp there).1
  obtain rfl : other = 1 := by omega
  obtain rfl : idx = 0 := by omega
  cases there
  exact absurd same (by decide)

/-- One remote image more, and the two local images have swapped their elements. -/
theorem setRemoteImageUrls_swaps_twoImages :
    Sound twoImages.textarea ∧ (twoImages.attachedImages.map AttachedImage.placeholder).Nodup ∧
      (∀ image ∈ twoImages.attachedImages,
        ∃! place, payloadAt twoImages.labels place = some image.placeholder) ∧
      (twoImages.setRemoteImageUrls [['u']]).labels =
        [(1, "[Image #3]".toList), (2, "[Image #2]".toList)] ∧
      ¬twoImages.Keeps (twoImages.setRemoteImageUrls [['u']]) := by
  have swapped : (twoImages.setRemoteImageUrls [['u']]).labels =
      [(1, "[Image #3]".toList), (2, "[Image #2]".toList)] := by decide
  refine ⟨sound_twoImages, by decide, once_twoImages, swapped, fun keeps => ?_⟩
  have own := (keeps 0 ⟨"[Image #1]".toList, "a.png".toList⟩ rfl).2 0 1
    (by rw [labels_twoImages]; rfl)
  rw [swapped] at own
  revert own
  decide

end ImageDraft

end Relabelling

end CodexPilot.Composer
