import CodexPilot.Composer.ChatComposer
import CodexPilot.Composer.Words

/-!
# Typed characters arrive in order

At most one of the buffer and the held character has anything in it, as long as no Enter comes
while a character is held: then each handler moves text between the three places without changing
the order.  A newline that is put into the buffer while a character is held overtakes it, and the
next flush forgets the character.
-/

namespace CodexPilot.Composer

open RustStd Transitions

/-! ## A text area with its cursor at the end -/

section AtEnd

variable {area : TextArea} {start : ℕ}

/-- There are no elements, and the cursor is at the end. -/
structure AtEnd (area : TextArea) : Prop where
  elements : area.elements = []
  cursor : area.cursorPos = len area.text

theorem isCharBoundary_len (text : Text) : isCharBoundary text (len text) = true :=
  isCharBoundary_iff.mpr (Offsets.isBoundary_end text)

theorem upTo_len (text : Text) : upTo text (len text) = text := by
  have whole := Offsets.front_append Char.utf8Size_pos text []
  rwa [List.append_nil] at whole

theorem onward_len (text : Text) : onward text (len text) = [] := by
  have whole := Offsets.back_append Char.utf8Size_pos text []
  rwa [List.append_nil] at whole

theorem clampPosOutside_of_elements (none : area.elements = [])
    (boundary : isCharBoundary area.text start = true) : area.clampPosOutside start = start := by
  rw [TextArea.clampPosOutside, clampPosToCharBoundary_of_boundary boundary, none]
  rfl

theorem AtEnd.insertStr (atEnd : AtEnd area) (text : Text) :
    (area.insertStr text).text = area.text ++ text ∧ AtEnd (area.insertStr text) := by
  have clamped : area.clampPosForInsertion (len area.text) = len area.text :=
    clampPosOutside_of_elements atEnd.elements (isCharBoundary_len area.text)
  have inserted : (area.insertStr text).text = area.text ++ text := by
    simp only [TextArea.insertStr, TextArea.insertStrAt, atEnd.cursor, clamped, replaceText,
      upTo_len, onward_len, List.append_nil]
  refine ⟨inserted, ?_, ?_⟩
  · simp [TextArea.insertStr, TextArea.insertStrAt, atEnd.elements, shiftElements]
  · rw [inserted, len_append]
    simp only [TextArea.insertStr, TextArea.insertStrAt, atEnd.cursor, clamped, le_rfl, if_true]

/-- Cutting off the end of the text leaves the cursor at the end of the rest. -/
theorem AtEnd.replaceRange (atEnd : AtEnd area) (boundary : isCharBoundary area.text start = true) :
    (area.replaceRange ⟨start, len area.text⟩ []).text = upTo area.text start ∧
      AtEnd (area.replaceRange ⟨start, len area.text⟩ []) := by
  have within : start ≤ len area.text := le_len_of_isCharBoundary boundary
  have same : expandRangeToElementBoundaries area.elements ⟨start, len area.text⟩ =
      ⟨start, len area.text⟩ := by
    rw [atEnd.elements]
    rfl
  rw [TextArea.replaceRange, same, TextArea.replaceRangeRaw]
  simp only [min_eq_left within, min_self]
  split
  case isTrue nothing =>
    have whole : start = len area.text := by omega
    rw [whole, upTo_len]
    exact ⟨rfl, atEnd⟩
  case isFalse =>
    have cut : replaceText area.text ⟨start, len area.text⟩ [] = upTo area.text start := by
      simp [replaceText, onward_len]
    have reaches : len (upTo area.text start) = start := by
      simpa [isCharBoundary] using boundary
    have none : shiftElements area.elements start (len area.text - start) (len []) = [] := by
      rw [atEnd.elements]
      rfl
    have cursor : TextArea.cursorAfter area.cursorPos start (len area.text) (len []) = start := by
      rw [TextArea.cursorAfter, atEnd.cursor, if_neg (Nat.not_lt.mpr within), if_pos le_rfl]
      rfl
    have boundary' : isCharBoundary (upTo area.text start) start = true := by
      have stands := isCharBoundary_len (upTo area.text start)
      rwa [reaches] at stands
    refine ⟨cut, none, ?_⟩
    simp only [cut, none, cursor, reaches, min_self]
    exact clampPosOutside_of_elements rfl boundary'

end AtEnd

/-! ## Pastes and retroactive captures -/

theorem normalizeLineEnds_of_not_mem {pasted : Text} (clean : '\r' ∉ pasted) :
    normalizeLineEnds pasted = pasted := by
  have kept : replaceCrLf pasted = pasted := by
    induction pasted with
    | nil => rfl
    | cons c pasted ih =>
        have other : ¬(c = '\r' ∧ pasted.head? = some '\n') :=
          fun both => List.ne_of_not_mem_cons clean both.1.symm
        rw [replaceCrLf, if_neg other, ih (List.not_mem_of_not_mem_cons clean)]
  rw [normalizeLineEnds, kept]
  refine (List.map_congr_left fun c member => ?_).trans (List.map_id pasted)
  have other : c ≠ '\r' := fun same => clean (same ▸ member)
  exact if_neg other

theorem clampToCharBoundary_len (text : Text) : clampToCharBoundary text (len text) = len text := by
  simp [clampToCharBoundary]

theorem isCharBoundary_retroStartIndex (before : Text) (retroChars : ℕ) :
    isCharBoundary before (retroStartIndex before retroChars) = true := by
  rw [retroStartIndex]
  split
  · exact isCharBoundary_len before
  · cases found : (charIndices before).reverse[retroChars - 1]? with
    | none => exact isCharBoundary_iff.mpr (Offsets.isBoundary_zero before)
    | some entry =>
        have member := List.mem_reverse.mp (List.mem_of_getElem? found)
        exact (isCharBoundary_of_mem member).1

namespace ChatComposer

variable {composer : ChatComposer} {area : TextArea} {burst : PasteBurst}

theorem handlePaste_eq {pasted : Text} (clean : '\r' ∉ pasted)
    (short : pasted.length ≤ largePasteCharThreshold) :
    composer.handlePaste pasted =
      some ⟨composer.textarea.insertStr pasted, composer.pasteBurst.clearAfterExplicitPaste⟩ := by
  rw [handlePaste, normalizeLineEnds_of_not_mem clean]
  exact if_neg (Nat.not_lt.mpr short)

theorem pieces_mk :
    (ChatComposer.mk area burst).pieces =
      area.text ++ (burst.buffer ++ (burst.pendingFirstChar.map Prod.fst).toList) := rfl

/-- What a retroactive capture takes from the text it puts into the buffer, and the character
behind it. -/
theorem beginBuffer_spec (atEnd : AtEnd area) (empty : burst.buffer = []) {ch : Char}
    {now : Instant} {retroChars : ℕ} {after : ChatComposer}
    (began : (ChatComposer.mk area burst).beginBuffer ch now retroChars = some after) :
    AtEnd after.textarea ∧ after.pasteBurst.active = true ∧
      after.textarea.text ++ after.pasteBurst.buffer = area.text ++ [ch] ∧
      after.pasteBurst.pendingFirstChar = burst.pendingFirstChar ∧
      after.pasteBurst.lastPlainCharTime = burst.lastPlainCharTime := by
  have here : clampToCharBoundary area.text area.cursorPos = len area.text := by
    rw [atEnd.cursor, clampToCharBoundary_len]
  simp only [beginBuffer, here, upTo_len] at began
  obtain ⟨⟨grab, begun⟩, decided, rfl⟩ := Option.map_eq_some_iff.mp began
  rw [PasteBurst.decideBeginBuffer] at decided
  split at decided
  case isFalse => cases decided
  case isTrue =>
    cases decided
    set startByte := retroStartIndex area.text retroChars
    have stands : isCharBoundary area.text startByte = true :=
      isCharBoundary_retroStartIndex area.text retroChars
    obtain ⟨cut, atEnd'⟩ := atEnd.replaceRange stands
    have whole : upTo area.text startByte ++ onward area.text startByte = area.text :=
      Offsets.front_append_back area.text startByte
    refine ⟨?_, rfl, ?_, rfl, rfl⟩
    · dsimp only
      split
      · exact atEnd
      · exact atEnd'
    · simp only [PasteBurst.appendCharToBuffer, PasteBurst.beginWithRetroGrabbed,
        PasteBurst.extendWindow, empty, List.nil_append]
      split
      case isTrue nothing =>
        rw [List.isEmpty_iff.mp nothing, List.nil_append]
      case isFalse =>
        rw [cut, ← List.append_assoc, whole]

end ChatComposer

/-! ## The burst between two strokes -/

/-- The burst holds nothing, or one character, or collects characters in its buffer. -/
inductive Settled (burst : PasteBurst) : Prop where
  | idle (inactive : burst.active = false) (empty : burst.buffer = [])
      (unheld : burst.pendingFirstChar = none)
  | holding (ch : Char) (time : Instant) (inactive : burst.active = false)
      (empty : burst.buffer = []) (held : burst.pendingFirstChar = some (ch, time))
      (noted : burst.lastPlainCharTime = some time)
  | collecting (time : Instant) (active : burst.active = true)
      (unheld : burst.pendingFirstChar = none) (noted : burst.lastPlainCharTime = some time)

/-- The composer has a text in its three places, and the last plain character is not from the
future. -/
structure Carries (composer : ChatComposer) (text : Text) (latest : Instant) : Prop where
  atEnd : AtEnd composer.textarea
  settled : Settled composer.pasteBurst
  pieces : composer.pieces = text
  punctual : ∀ time ∈ composer.pasteBurst.lastPlainCharTime, time ≤ latest

/-- A character has been taken, or it was a control chord. -/
def Lands (ch : Char) (text : Text) (now : Instant) (result : Option ChatComposer) : Prop :=
  (result = none ∧ isControlChord ch = true) ∨ ∃ after, result = some after ∧ Carries after text now

section Handlers

variable {composer : ChatComposer} {area : TextArea} {burst : PasteBurst} {text pasted : Text}
variable {ch : Char} {latest now time : Instant} {retroChars : ℕ}

theorem timedOut_eq (noted : burst.lastPlainCharTime = some time) :
    burst.timedOut now = decide (pasteBurstCharInterval < now - time) := by
  have same : pasteBurstActiveIdleTimeout = pasteBurstCharInterval := rfl
  simp [PasteBurst.timedOut, noted, same]

/-- Both timeouts are the same. -/
theorem overdue (earlier : time ≤ latest) (late : latest + pasteBurstActiveIdleTimeout < now) :
    pasteBurstCharInterval < now - time := by
  have reaches : time + pasteBurstCharInterval < now :=
    (Nat.add_le_add_right earlier pasteBurstActiveIdleTimeout).trans_lt late
  exact Nat.lt_sub_of_add_lt (Nat.add_comm time _ ▸ reaches)

theorem carries_pasted (atEnd : AtEnd area) (burst : PasteBurst) (pasted : Text) (now : Instant) :
    Carries ⟨area.insertStr pasted, burst.clearAfterExplicitPaste⟩ (area.text ++ pasted) now := by
  obtain ⟨inserted, atEnd'⟩ := atEnd.insertStr pasted
  refine ⟨atEnd', .idle rfl rfl rfl, ?_, fun time none => by cases none⟩
  rw [ChatComposer.pieces_mk, inserted]
  exact List.append_nil _

/-- What is due has reached the text after a flush, and the rest is where it was. -/
theorem Carries.flush (carries : Carries composer text latest) (clean : '\r' ∉ text)
    (short : text.length ≤ largePasteCharThreshold) (now : Instant) :
    ∃ after, composer.handlePasteBurstFlush now = some after ∧ Carries after text latest ∧
      (∀ pending ∈ after.pasteBurst.pendingFirstChar, now - pending.2 ≤ pasteBurstCharInterval) ∧
      (latest + pasteBurstActiveIdleTimeout < now → after.textarea.text = text) := by
  obtain ⟨area, burst⟩ := composer
  have same : pasteBurstActiveIdleTimeout = pasteBurstCharInterval := rfl
  have pieces := carries.pieces
  rw [ChatComposer.pieces_mk] at pieces
  have atEnd : AtEnd area := carries.atEnd
  have settled : Settled burst := carries.settled
  cases settled with
  | idle inactive empty unheld =>
      have kept : ChatComposer.handlePasteBurstFlush ⟨area, burst⟩ now = some ⟨area, burst⟩ := by
        simp [ChatComposer.handlePasteBurstFlush, PasteBurst.flushIfDue,
          PasteBurst.isActiveInternal, inactive, empty, unheld]
      refine ⟨_, kept, carries, by simp [unheld], fun _ => ?_⟩
      simpa [empty, unheld] using pieces
  | holding ch time inactive empty held noted =>
      by_cases due : pasteBurstCharInterval < now - time
      · obtain ⟨inserted, atEnd'⟩ := atEnd.insertStr [ch]
        have whole : area.text ++ [ch] = text := by simpa [empty, held] using pieces
        refine ⟨⟨area.insertStr [ch], { burst with pendingFirstChar := none }⟩, ?_,
          ⟨atEnd', .idle inactive empty rfl, ?_, carries.punctual⟩, by simp,
          fun _ => inserted.trans whole⟩
        · simp [ChatComposer.handlePasteBurstFlush, PasteBurst.flushIfDue, timedOut_eq noted, due,
            PasteBurst.isActiveInternal, inactive, empty, held]
        · rw [ChatComposer.pieces_mk, inserted]
          simpa [empty] using whole
      · have kept : ChatComposer.handlePasteBurstFlush ⟨area, burst⟩ now = some ⟨area, burst⟩ := by
          simp [ChatComposer.handlePasteBurstFlush, PasteBurst.flushIfDue, timedOut_eq noted, due]
        refine ⟨_, kept, carries, ?_, fun late => ?_⟩
        · rintro pending member
          cases held.symm.trans member
          exact Nat.not_lt.mp due
        · exact absurd (overdue (carries.punctual time noted) late) due
  | collecting time active unheld noted =>
      have whole : area.text ++ burst.buffer = text := by simpa [unheld] using pieces
      by_cases due : pasteBurstCharInterval < now - time
      · have clean' : '\r' ∉ burst.buffer :=
          fun member => clean (whole ▸ List.mem_append_right area.text member)
        have short' : burst.buffer.length ≤ largePasteCharThreshold := by
          rw [← whole, List.length_append] at short
          omega
        have arrived : ChatComposer.handlePasteBurstFlush ⟨area, burst⟩ now =
            some ⟨area.insertStr burst.buffer, burst.clearAfterExplicitPaste⟩ := by
          simp [ChatComposer.handlePasteBurstFlush, PasteBurst.flushIfDue, timedOut_eq noted, due,
            PasteBurst.isActiveInternal, active, ChatComposer.handlePaste_eq clean' short',
            PasteBurst.clearAfterExplicitPaste]
        obtain ⟨inserted, -⟩ := atEnd.insertStr burst.buffer
        have carried := carries_pasted atEnd burst burst.buffer latest
        rw [whole] at carried
        exact ⟨_, arrived, carried, by simp [PasteBurst.clearAfterExplicitPaste],
          fun _ => inserted.trans whole⟩
      · have kept : ChatComposer.handlePasteBurstFlush ⟨area, burst⟩ now = some ⟨area, burst⟩ := by
          simp [ChatComposer.handlePasteBurstFlush, PasteBurst.flushIfDue, timedOut_eq noted, due]
        refine ⟨_, kept, carries, by simp [unheld], fun late => ?_⟩
        exact absurd (overdue (carries.punctual time noted) late) due

/-- Without a burst, a character is inserted at the end. -/
theorem lands_insertTyped (atEnd : AtEnd area) (inactive : burst.active = false)
    (empty : burst.buffer = []) (unheld : burst.pendingFirstChar = none)
    (punctual : ∀ time ∈ burst.lastPlainCharTime, time ≤ now) :
    Lands ch (area.text ++ [ch]) now (ChatComposer.insertTyped ⟨area, burst⟩ ch) := by
  have flushed : ChatComposer.insertTyped ⟨area, burst⟩ ch =
      (area.input ch).map fun area => ⟨area, burst⟩ := by
    simp [ChatComposer.insertTyped, ChatComposer.flushBeforeModifiedInput,
      PasteBurst.flushBeforeModifiedInput, PasteBurst.isActive, PasteBurst.isActiveInternal,
      inactive, empty, unheld]
  rw [flushed, TextArea.input]
  split
  case isTrue chord => exact .inl ⟨rfl, chord⟩
  case isFalse =>
    obtain ⟨inserted, atEnd'⟩ := atEnd.insertStr [ch]
    refine .inr ⟨_, rfl, atEnd', .idle inactive empty unheld, ?_, punctual⟩
    rw [ChatComposer.pieces_mk, inserted]
    simp [empty, unheld]

/-- Whether or not the characters in front of it look like a paste, a character goes behind
them. -/
theorem lands_beginBuffer (atEnd : AtEnd area) (inactive : burst.active = false)
    (empty : burst.buffer = []) (unheld : burst.pendingFirstChar = none)
    (noted : burst.lastPlainCharTime = some now) :
    Lands ch (area.text ++ [ch]) now
      ((ChatComposer.beginBuffer ⟨area, burst⟩ ch now retroChars).or
        (ChatComposer.insertTyped ⟨area, burst⟩ ch)) := by
  have punctual : ∀ time ∈ burst.lastPlainCharTime, time ≤ now := by
    intro time member
    cases noted.symm.trans member
    exact le_rfl
  cases began : ChatComposer.beginBuffer ⟨area, burst⟩ ch now retroChars with
  | none => exact lands_insertTyped atEnd inactive empty unheld punctual
  | some after =>
      obtain ⟨atEnd', active, whole, unheld', noted'⟩ :=
        ChatComposer.beginBuffer_spec atEnd empty began
      rw [unheld] at unheld'
      rw [noted] at noted'
      refine .inr ⟨after, rfl, atEnd', .collecting now active unheld' noted', ?_, ?_⟩
      · rw [ChatComposer.pieces, unheld', ← whole]
        simp
      · intro time member
        cases noted'.symm.trans member
        exact le_rfl

@[simp]
theorem notePlainChar_active : (burst.notePlainChar now).active = burst.active := rfl

@[simp]
theorem notePlainChar_buffer : (burst.notePlainChar now).buffer = burst.buffer := rfl

@[simp]
theorem notePlainChar_pending :
    (burst.notePlainChar now).pendingFirstChar = burst.pendingFirstChar := rfl

theorem heldLately_eq {first : Char} (held : burst.pendingFirstChar = some (first, time))
    (soon : now - time ≤ pasteBurstCharInterval) :
    (burst.notePlainChar now).heldLately now = some first := by
  have lately : decide (now - time ≤ pasteBurstCharInterval) = true := decide_eq_true soon
  rw [PasteBurst.heldLately, notePlainChar_pending, held, Option.filter_some, lately]
  rfl

theorem lands_handleUnheldNonAsciiChar (atEnd : AtEnd area) (inactive : burst.active = false)
    (empty : burst.buffer = []) (unheld : burst.pendingFirstChar = none) :
    Lands ch (area.text ++ [ch]) now
      (ChatComposer.handleUnheldNonAsciiChar ⟨area, burst⟩ ch now) := by
  by_cases fast : pasteBurstMinChars ≤ (burst.notePlainChar now).consecutivePlainCharBurst
  · have decided : ChatComposer.handleUnheldNonAsciiChar ⟨area, burst⟩ ch now =
        (ChatComposer.beginBuffer ⟨area, burst.notePlainChar now⟩ ch now
          ((burst.notePlainChar now).consecutivePlainCharBurst - 1)).or
        (ChatComposer.insertTyped ⟨area, burst.notePlainChar now⟩ ch) := by
      simp [ChatComposer.handleUnheldNonAsciiChar, PasteBurst.onPlainCharNoHold, inactive, fast]
    rw [decided]
    exact lands_beginBuffer atEnd inactive empty unheld rfl
  · have decided : ChatComposer.handleUnheldNonAsciiChar ⟨area, burst⟩ ch now =
        ChatComposer.insertTyped ⟨area, burst.notePlainChar now⟩ ch := by
      simp [ChatComposer.handleUnheldNonAsciiChar, PasteBurst.onPlainCharNoHold, inactive, fast]
    rw [decided]
    refine lands_insertTyped atEnd inactive empty unheld fun time noted => ?_
    cases noted
    exact le_rfl

/-- A character that is not ASCII is taken behind the text that is carried. -/
theorem Carries.nonAscii (carries : Carries composer text latest) (ordered : latest ≤ now)
    (clean : '\r' ∉ text) : Lands ch (text ++ [ch]) now (composer.handleNonAsciiChar ch now) := by
  obtain ⟨area, burst⟩ := composer
  have pieces := carries.pieces
  rw [ChatComposer.pieces_mk] at pieces
  have atEnd : AtEnd area := carries.atEnd
  have settled : Settled burst := carries.settled
  have punctual : ∀ time ∈ burst.lastPlainCharTime, time ≤ now :=
    fun time noted => (carries.punctual time noted).trans ordered
  cases settled with
  | idle inactive empty unheld =>
      have whole : area.text = text := by simpa [empty, unheld] using pieces
      have unjoined : ChatComposer.handleNonAsciiChar ⟨area, burst⟩ ch now =
          ChatComposer.handleUnheldNonAsciiChar ⟨area, burst⟩ ch now := by
        simp [ChatComposer.handleNonAsciiChar, PasteBurst.tryAppendCharIfActive,
          ChatComposer.flushBeforeModifiedInput, PasteBurst.flushBeforeModifiedInput,
          PasteBurst.isActive, PasteBurst.isActiveInternal, inactive, empty, unheld]
      rw [unjoined, ← whole]
      exact lands_handleUnheldNonAsciiChar atEnd inactive empty unheld
  | holding first time inactive empty held noted =>
      have whole : area.text ++ [first] = text := by simpa [empty, held] using pieces
      have clean' : '\r' ∉ [first] :=
        fun member => clean (whole ▸ List.mem_append_right area.text member)
      obtain ⟨inserted, atEnd'⟩ := atEnd.insertStr [first]
      have unjoined : ChatComposer.handleNonAsciiChar ⟨area, burst⟩ ch now =
          ChatComposer.handleUnheldNonAsciiChar
            ⟨area.insertStr [first], burst.clearAfterExplicitPaste⟩ ch now := by
        have short : [first].length ≤ largePasteCharThreshold := by simp [largePasteCharThreshold]
        simp [ChatComposer.handleNonAsciiChar, PasteBurst.tryAppendCharIfActive,
          ChatComposer.flushBeforeModifiedInput, PasteBurst.flushBeforeModifiedInput,
          PasteBurst.isActive, PasteBurst.isActiveInternal, inactive, empty, held,
          ChatComposer.handlePaste_eq clean' short, PasteBurst.clearAfterExplicitPaste]
      rw [unjoined, ← whole, ← inserted]
      exact lands_handleUnheldNonAsciiChar atEnd' rfl rfl rfl
  | collecting time active unheld noted =>
      have joined : ChatComposer.handleNonAsciiChar ⟨area, burst⟩ ch now =
          some ⟨area, burst.appendCharToBuffer ch now⟩ := by
        simp [ChatComposer.handleNonAsciiChar, PasteBurst.tryAppendCharIfActive,
          PasteBurst.isActiveInternal, active]
      refine .inr ⟨_, joined, atEnd, .collecting time active unheld noted, ?_, punctual⟩
      rw [ChatComposer.pieces_mk, ← pieces]
      simp [PasteBurst.appendCharToBuffer, PasteBurst.extendWindow, unheld]

/-- A plain ASCII character is taken behind the text that is carried, when no character has been
held for longer than the interval. -/
theorem Carries.ascii (carries : Carries composer text latest)
    (fresh : ∀ pending ∈ composer.pasteBurst.pendingFirstChar,
      now - pending.2 ≤ pasteBurstCharInterval) :
    Lands ch (text ++ [ch]) now (composer.handleAsciiChar ch now) := by
  obtain ⟨area, burst⟩ := composer
  have pieces := carries.pieces
  rw [ChatComposer.pieces_mk] at pieces
  have atEnd : AtEnd area := carries.atEnd
  have settled : Settled burst := carries.settled
  have punctual : ∀ time ∈ some now, time ≤ now := by simp
  cases settled with
  | idle inactive empty unheld =>
      have whole : area.text = text := by simpa [empty, unheld] using pieces
      by_cases fast :
          pasteBurstMinChars ≤ (burst.notePlainChar now).consecutivePlainCharBurst
      · have decided : ChatComposer.handleAsciiChar ⟨area, burst⟩ ch now =
            (ChatComposer.beginBuffer ⟨area, burst.notePlainChar now⟩ ch now
              ((burst.notePlainChar now).consecutivePlainCharBurst - 1)).or
            (ChatComposer.insertTyped ⟨area, burst.notePlainChar now⟩ ch) := by
          simp [ChatComposer.handleAsciiChar, PasteBurst.onPlainChar, PasteBurst.heldLately,
            inactive, unheld, fast]
        rw [decided, ← whole]
        exact lands_beginBuffer atEnd inactive empty unheld rfl
      · have decided : ChatComposer.handleAsciiChar ⟨area, burst⟩ ch now =
            some ⟨area, { burst.notePlainChar now with pendingFirstChar := some (ch, now) }⟩ := by
          simp [ChatComposer.handleAsciiChar, PasteBurst.onPlainChar, PasteBurst.heldLately,
            inactive, unheld, fast]
        refine .inr ⟨_, decided, atEnd, .holding ch now inactive empty rfl rfl, ?_, punctual⟩
        rw [ChatComposer.pieces_mk, ← whole]
        simp [empty]
  | holding first time inactive empty held noted =>
      have soon : now - time ≤ pasteBurstCharInterval := fresh (first, time) held
      let begun : PasteBurst :=
        { burst.notePlainChar now with
          active := true
          pendingFirstChar := none
          buffer := [first, ch]
          burstWindowUntil := some (now + pasteEnterSuppressWindow) }
      have joined : ChatComposer.handleAsciiChar ⟨area, burst⟩ ch now = some ⟨area, begun⟩ := by
        simp [ChatComposer.handleAsciiChar, PasteBurst.onPlainChar, inactive,
          heldLately_eq held soon, empty, PasteBurst.appendCharToBuffer, PasteBurst.extendWindow,
          begun]
      refine .inr ⟨_, joined, atEnd, .collecting now rfl rfl rfl, ?_, punctual⟩
      rw [ChatComposer.pieces_mk, ← pieces]
      simp [begun, empty, held]
  | collecting time active unheld noted =>
      have joined : ChatComposer.handleAsciiChar ⟨area, burst⟩ ch now =
          some ⟨area, ((burst.notePlainChar now).extendWindow now).appendCharToBuffer ch now⟩ := by
        simp [ChatComposer.handleAsciiChar, PasteBurst.onPlainChar, active]
      refine .inr ⟨_, joined, atEnd, .collecting now active unheld rfl, ?_, punctual⟩
      rw [ChatComposer.pieces_mk, ← pieces]
      simp [PasteBurst.appendCharToBuffer, PasteBurst.extendWindow, unheld]

/-- Every plain character is taken behind the text that is carried. -/
theorem Carries.char (carries : Carries composer text latest) (ordered : latest ≤ now)
    (clean : '\r' ∉ text) (short : text.length ≤ largePasteCharThreshold) :
    Lands ch (text ++ [ch]) now (composer.handleInputBasicWithTime ch now) := by
  obtain ⟨flushed, due, carries', fresh, -⟩ := carries.flush clean short now
  rw [ChatComposer.handleInputBasicWithTime, due, Option.bind_some]
  split
  · exact carries'.ascii fresh
  · exact carries'.nonAscii ordered clean

/-- An Enter that is absorbed while no character is held goes behind the text that is carried. -/
theorem Carries.enter (carries : Carries composer text latest) (ordered : latest ≤ now)
    (unheld : composer.pasteBurst.pendingFirstChar = none) {inSlashContext : Text → Bool}
    {after : ChatComposer}
    (absorbed : composer.handleSubmissionWithTime inSlashContext now = some after) :
    Carries after (text ++ ['\n']) now := by
  obtain ⟨area, burst⟩ := composer
  have pieces := carries.pieces
  rw [ChatComposer.pieces_mk] at pieces
  have atEnd : AtEnd area := carries.atEnd
  have settled : Settled burst := carries.settled
  have punctual : ∀ time ∈ burst.lastPlainCharTime, time ≤ now :=
    fun time noted => (carries.punctual time noted).trans ordered
  rw [ChatComposer.handleSubmissionWithTime] at absorbed
  split at absorbed
  case isTrue => cases absorbed
  case isFalse =>
    cases settled with
    | idle inactive empty unheld =>
        have whole : area.text = text := by simpa [empty, unheld] using pieces
        have quiet : burst.appendNewlineIfActive now = none := by
          simp [PasteBurst.appendNewlineIfActive, PasteBurst.isActive,
            PasteBurst.isActiveInternal, inactive, empty, unheld]
        simp only [quiet] at absorbed
        split at absorbed
        case isTrue =>
          cases absorbed
          obtain ⟨inserted, atEnd'⟩ := atEnd.insertStr ['\n']
          refine ⟨atEnd', .idle inactive empty unheld, ?_, punctual⟩
          rw [ChatComposer.pieces_mk, inserted, ← whole]
          simp [PasteBurst.extendWindow, empty, unheld]
        case isFalse => cases absorbed
    | holding first time inactive empty held noted => cases unheld.symm.trans held
    | collecting time active unheld noted =>
        have joined : burst.appendNewlineIfActive now =
            some ({ burst with buffer := burst.buffer ++ ['\n'] }.extendWindow now) := by
          simp [PasteBurst.appendNewlineIfActive, PasteBurst.isActive,
            PasteBurst.isActiveInternal, active]
        simp only [joined] at absorbed
        cases absorbed
        refine ⟨atEnd, .collecting time active unheld noted, ?_, punctual⟩
        rw [ChatComposer.pieces_mk, ← pieces]
        simp [PasteBurst.extendWindow, unheld]

end Handlers

/-! ## Runs -/

namespace Session

variable {inSlashContext : Text → Bool} {session next : Session} {stroke : Stroke}
variable {strokes : List Stroke}

/-- With the stroke, no carriage return has been typed, and not more than fits in one paste. -/
def Fits (session : Session) (stroke : Stroke) : Prop :=
  '\r' ∉ session.typed ++ stroke.key.typed ∧
    (session.typed ++ stroke.key.typed).length ≤ largePasteCharThreshold

/-- The composer carries what has been typed. -/
def Sound (session : Session) : Prop :=
  Carries session.composer session.typed session.latest

theorem step_cases (stepped : step inSlashContext session stroke = some next) :
    session.latest ≤ stroke.now ∧ ∃ composer,
      handle inSlashContext session.composer stroke = some composer ∧
        next = ⟨composer, session.typed ++ stroke.key.typed, stroke.now⟩ := by
  rw [step] at stepped
  split at stepped
  case isTrue => cases stepped
  case isFalse ordered =>
    obtain ⟨composer, handled, rfl⟩ := Option.map_eq_some_iff.mp stepped
    exact ⟨Nat.not_lt.mp ordered, composer, handled, rfl⟩

theorem fits_of_typedBy (clean : '\r' ∉ session.typed ++ typedBy strokes)
    (short : (session.typed ++ typedBy strokes).length ≤ largePasteCharThreshold) :
    Along (step inSlashContext) Fits session strokes := by
  induction strokes generalizing session with
  | nil => trivial
  | cons stroke strokes ih =>
      intro next stepped
      rw [typedBy, List.flatMap_cons, ← List.append_assoc] at clean short
      obtain ⟨-, composer, -, rfl⟩ := step_cases stepped
      refine ⟨⟨fun member => clean (List.mem_append_left _ member), ?_⟩, ih clean short⟩
      rw [List.length_append] at short
      omega

theorem sound_start : Sound start := by
  refine ⟨⟨rfl, rfl⟩, .idle rfl rfl rfl, rfl, fun time noted => ?_⟩
  cases noted

theorem Sound.delivers (sound : Sound session) (clean : '\r' ∉ session.typed)
    (short : session.typed.length ≤ largePasteCharThreshold) : Delivers session := by
  refine ⟨sound.pieces, fun now late => ?_⟩
  obtain ⟨after, flushed, -, -, arrived⟩ := sound.flush clean short now
  exact ⟨after, flushed, arrived late⟩

theorem Carries.later {composer : ChatComposer} {text : Text} {latest now : Instant}
    (carries : Carries composer text latest) (ordered : latest ≤ now) : Carries composer text now :=
  { carries with punctual := fun time noted => (carries.punctual time noted).trans ordered }

/-- A stroke keeps what has been typed in order, unless it is an Enter and a character is held. -/
theorem Sound.step (sound : Sound session) (fits : Fits session stroke)
    (unheld : EnterUnheld session stroke)
    (stepped : Session.step inSlashContext session stroke = some next) : Sound next := by
  obtain ⟨ordered, composer, handled, rfl⟩ := step_cases stepped
  have clean : '\r' ∉ session.typed := fun member => fits.1 (List.mem_append_left _ member)
  have short : session.typed.length ≤ largePasteCharThreshold := by
    have both := fits.2
    rw [List.length_append] at both
    omega
  obtain ⟨key, now⟩ := stroke
  cases key with
  | char ch =>
      have lands : Lands ch (session.typed ++ [ch]) now
          (session.composer.handleInputBasicWithTime ch now) :=
        Carries.char sound ordered clean short
      obtain ⟨refused, -⟩ | ⟨after, took, carried⟩ := lands
      · cases handled.symm.trans refused
      · cases handled.symm.trans took
        exact carried
  | enter => exact Carries.enter sound ordered (unheld rfl) handled
  | tick =>
      obtain ⟨after, flushed, carried, -⟩ := Carries.flush sound clean short now
      cases handled.symm.trans flushed
      exact (List.append_nil session.typed).symm ▸ Carries.later carried ordered

/-- The newline overtakes a character that is held, and the next flush forgets the character. -/
theorem not_delivers_of_held (sound : Sound session) (key : stroke.key = .enter)
    (held : session.composer.pasteBurst.pendingFirstChar ≠ none)
    (stepped : Session.step inSlashContext session stroke = some next) : ¬Delivers next := by
  obtain ⟨ordered, composer, handled, rfl⟩ := step_cases stepped
  obtain ⟨⟨area, burst⟩, soFar, latest⟩ := session
  obtain ⟨key', now⟩ := stroke
  cases key
  have atEnd : AtEnd area := sound.atEnd
  have settled : Settled burst := sound.settled
  cases settled with
  | idle inactive empty unheld | collecting time active unheld noted => exact absurd unheld held
  | holding ch time inactive empty holds noted =>
      have whole : area.text ++ [ch] = soFar := by
        have pieces := sound.pieces
        rw [ChatComposer.pieces_mk] at pieces
        simpa [empty, holds] using pieces
      let joined : PasteBurst :=
        { burst with buffer := ['\n'], burstWindowUntil := some (now + pasteEnterSuppressWindow) }
      have overtaken : composer = ⟨area, joined⟩ := by
        simp only [handle, ChatComposer.handleSubmissionWithTime] at handled
        split at handled
        case isTrue => cases handled
        case isFalse =>
          simp only [PasteBurst.appendNewlineIfActive, PasteBurst.isActive, holds,
            Option.isSome_some, Bool.or_true, if_true, Option.some.injEq] at handled
          rw [← handled]
          simp [joined, empty, holds, PasteBurst.extendWindow]
      subst overtaken
      intro delivers
      have late : now + pasteBurstActiveIdleTimeout <
          now + pasteBurstActiveIdleTimeout + 1 := Nat.lt_succ_self _
      have due := overdue ((sound.punctual time noted).trans ordered) late
      obtain ⟨after, flushed, arrived⟩ := delivers.arrives _ late
      have noted' : joined.lastPlainCharTime = some time := noted
      have clean : '\r' ∉ ['\n'] := by decide
      have forgotten : ChatComposer.handlePasteBurstFlush ⟨area, joined⟩
          (now + pasteBurstActiveIdleTimeout + 1) =
            some ⟨area.insertStr ['\n'], joined.clearAfterExplicitPaste⟩ := by
        have short : ['\n'].length ≤ largePasteCharThreshold := by simp [largePasteCharThreshold]
        simp [ChatComposer.handlePasteBurstFlush, PasteBurst.flushIfDue, timedOut_eq noted', due,
          PasteBurst.isActiveInternal, joined, ChatComposer.handlePaste_eq clean short,
          PasteBurst.clearAfterExplicitPaste]
      cases forgotten.symm.trans flushed
      have lengths := congrArg List.length arrived
      rw [(atEnd.insertStr ['\n']).1, ← whole] at lengths
      simp [Key.typed] at lengths

/-- In a run that types no carriage return, and not more than fits in one paste, nothing is lost,
repeated or out of order at any moment exactly when no Enter comes while a character is held. -/
theorem delivers_of_run (clean : '\r' ∉ typedBy strokes)
    (short : (typedBy strokes).length ≤ largePasteCharThreshold) :
    Along (Session.step inSlashContext) EnterUnheld start strokes ↔
      ∀ before, before <+: strokes → ∀ session,
        run (Session.step inSlashContext) start before = some session → Delivers session := by
  have kept : ∀ session stroke next, Sound session → Fits session stroke →
      EnterUnheld session stroke → Session.step inSlashContext session stroke = some next →
        Sound next :=
    fun session stroke next sound fits unheld stepped => sound.step fits unheld stepped
  refine along_iff_wanted_of_along ?_ kept sound_start ?_ (fits_of_typedBy clean short)
  · intro session stroke next sound fits stepped
    constructor
    · intro delivers key
      by_contra held
      exact not_delivers_of_held sound key held stepped delivers
    · intro unheld
      have sound' := kept session stroke next sound fits unheld stepped
      obtain ⟨-, composer, -, rfl⟩ := step_cases stepped
      exact Sound.delivers sound' fits.1 fits.2
  · exact Sound.delivers sound_start (by simp [start]) (Nat.zero_le _)

/-- A burst with an Enter and a wide character in it, and one more character when it has reached the
text. -/
def pastedLines : List Stroke :=
  [⟨.char 'h', 0⟩, ⟨.char 'i', millis 1⟩, ⟨.enter, millis 2⟩, ⟨.char 'あ', millis 3⟩,
    ⟨.tick, millis 11⟩, ⟨.char 'x', millis 12⟩, ⟨.tick, millis 21⟩]

theorem delivers_pastedLines :
    Along (Session.step fun _ => false) EnterUnheld start pastedLines ∧
      ∀ before, before <+: pastedLines → ∀ session,
        run (Session.step fun _ => false) start before = some session → Delivers session := by
  have unheld : Along (Session.step fun _ => false) EnterUnheld start pastedLines := by
    decide +kernel
  have short : (typedBy pastedLines).length ≤ largePasteCharThreshold := by
    simp [pastedLines, typedBy, Key.typed, largePasteCharThreshold]
  exact ⟨unheld, (delivers_of_run (by decide) short).mp unheld⟩

/-- A character, and an Enter a millisecond behind it. -/
def lineOfOne : List Stroke := [⟨.char 'a', 0⟩, ⟨.enter, millis 1⟩]

/-- The newline overtakes the character, and the tick that puts the newline into the text drops the
character. -/
theorem not_delivers_lineOfOne :
    ∃ session, run (Session.step fun _ => false) start lineOfOne = some session ∧
      session.typed = ['a', '\n'] ∧ session.composer.pieces = ['\n', 'a'] ∧
      ∃ after, session.composer.handlePasteBurstFlush (millis 10) = some after ∧
        after.pieces = ['\n'] ∧ after.textarea.text = ['\n'] := by
  refine ⟨_, rfl, rfl, rfl, _, rfl, rfl, rfl⟩

end Session

end CodexPilot.Composer
