import CodexPilot.Composer.TextArea
import CodexPilot.Library.Transitions

/-!
# Typing into the composer

A terminal without bracketed paste sends a paste as a stream of keys.  The burst holds the first
character of a stream for a moment, and collects a stream that is fast enough in a buffer; how to
treat each character is decided from the times of the characters before it.

Keys and ticks reach the text area through the burst, pastes of images are off.  What leaves the
text with its cursor at the end, without elements, has no step: a paste that is long enough to
become an element, a control chord, and an Enter that submits.
-/

namespace CodexPilot.Composer

open RustStd Transitions

/-- `Instant`, in nanoseconds. -/
abbrev Instant := ℕ

/-- `Duration`, in nanoseconds. -/
abbrev Duration := ℕ

/-- `Duration::from_millis`. -/
def millis (n : ℕ) : Duration := n * 1000000

/-- `u16::saturating_add`. -/
def saturatingAdd (left right : ℕ) : ℕ := min (left + right) (2 ^ 16 - 1)

/-- `PASTE_BURST_MIN_CHARS`. -/
def pasteBurstMinChars : ℕ := 3

/-- `PASTE_ENTER_SUPPRESS_WINDOW`. -/
def pasteEnterSuppressWindow : Duration := millis 120

/-- `PASTE_BURST_CHAR_INTERVAL`, where the target is not Windows. -/
def pasteBurstCharInterval : Duration := millis 8

/-- `PASTE_BURST_ACTIVE_IDLE_TIMEOUT`, where the target is not Windows. -/
def pasteBurstActiveIdleTimeout : Duration := millis 8

/-- `CharDecision`. -/
inductive CharDecision where
  | beginBuffer (retroChars : ℕ)
  | bufferAppend
  | retainFirstChar
  | beginBufferFromPending

/-- `RetroGrab`. -/
structure RetroGrab where
  startByte : ℕ
  grabbed : Text

/-- `FlushResult`. -/
inductive FlushResult where
  | paste (pasted : Text)
  | typed (ch : Char)
  | none

/-- `PasteBurst`. -/
structure PasteBurst where
  lastPlainCharTime : Option Instant
  consecutivePlainCharBurst : ℕ
  burstWindowUntil : Option Instant
  buffer : Text
  active : Bool
  pendingFirstChar : Option (Char × Instant)

/-- `retro_start_index`. -/
def retroStartIndex (before : Text) (retroChars : ℕ) : ℕ :=
  if retroChars = 0 then len before
  else (((charIndices before).reverse[retroChars - 1]?).map Prod.fst).getD 0

namespace PasteBurst

/-- `PasteBurst::default`. -/
def default : PasteBurst where
  lastPlainCharTime := none
  consecutivePlainCharBurst := 0
  burstWindowUntil := none
  buffer := []
  active := false
  pendingFirstChar := none

/-- `note_plain_char`. -/
def notePlainChar (burst : PasteBurst) (now : Instant) : PasteBurst :=
  { burst with
    consecutivePlainCharBurst :=
      match burst.lastPlainCharTime with
      | some prev =>
          if now - prev ≤ pasteBurstCharInterval then
            saturatingAdd burst.consecutivePlainCharBurst 1
          else 1
      | none => 1
    lastPlainCharTime := some now }

/-- `extend_window`. -/
def extendWindow (burst : PasteBurst) (now : Instant) : PasteBurst :=
  { burst with burstWindowUntil := some (now + pasteEnterSuppressWindow) }

/-- The character that is held, when it has been held for at most the interval. -/
def heldLately (burst : PasteBurst) (now : Instant) : Option Char :=
  (burst.pendingFirstChar.filter fun pending => now - pending.2 ≤ pasteBurstCharInterval).map
    Prod.fst

/-- `on_plain_char`. -/
def onPlainChar (burst : PasteBurst) (ch : Char) (now : Instant) : CharDecision × PasteBurst :=
  let burst := burst.notePlainChar now
  if burst.active then (.bufferAppend, burst.extendWindow now)
  else
    match burst.heldLately now with
    | some held =>
        let begun : PasteBurst :=
          { burst with active := true, pendingFirstChar := none, buffer := burst.buffer ++ [held] }
        (.beginBufferFromPending, begun.extendWindow now)
    | none =>
        if pasteBurstMinChars ≤ burst.consecutivePlainCharBurst then
          (.beginBuffer (burst.consecutivePlainCharBurst - 1), burst)
        else
          (.retainFirstChar,
            { burst with pendingFirstChar := some (ch, now) })

/-- `on_plain_char_no_hold`. -/
def onPlainCharNoHold (burst : PasteBurst) (now : Instant) : Option CharDecision × PasteBurst :=
  let burst := burst.notePlainChar now
  if burst.active then (some .bufferAppend, burst.extendWindow now)
  else if pasteBurstMinChars ≤ burst.consecutivePlainCharBurst then
    (some (.beginBuffer (burst.consecutivePlainCharBurst - 1)), burst)
  else (none, burst)

/-- `is_active_internal`. -/
def isActiveInternal (burst : PasteBurst) : Bool := burst.active || !burst.buffer.isEmpty

/-- `is_active`. -/
def isActive (burst : PasteBurst) : Bool := burst.isActiveInternal || burst.pendingFirstChar.isSome

/-- Whether the timeout has elapsed since the last plain character. -/
def timedOut (burst : PasteBurst) (now : Instant) : Bool :=
  let timeout :=
    if burst.isActiveInternal then pasteBurstActiveIdleTimeout else pasteBurstCharInterval
  burst.lastPlainCharTime.any fun time => timeout < now - time

/-- `flush_if_due`. -/
def flushIfDue (burst : PasteBurst) (now : Instant) : FlushResult × PasteBurst :=
  if burst.timedOut now && burst.isActiveInternal then
    (.paste burst.buffer,
      { burst with active := false, buffer := [] })
  else if burst.timedOut now then
    match burst.pendingFirstChar with
    | some (ch, _) =>
        (.typed ch,
          { burst with pendingFirstChar := none })
    | none => (.none, burst)
  else (.none, burst)

/-- `append_newline_if_active`: the burst with the newline, if it was active. -/
def appendNewlineIfActive (burst : PasteBurst) (now : Instant) : Option PasteBurst :=
  if burst.isActive then
    let longer : PasteBurst :=
      { burst with buffer := burst.buffer ++ ['\n'] }
    some (longer.extendWindow now)
  else none

/-- `newline_should_insert_instead_of_submit`. -/
def newlineShouldInsertInsteadOfSubmit (burst : PasteBurst) (now : Instant) : Bool :=
  burst.isActive || burst.burstWindowUntil.any fun deadline => now ≤ deadline

/-- `begin_with_retro_grabbed`. -/
def beginWithRetroGrabbed (burst : PasteBurst) (grabbed : Text) (now : Instant) : PasteBurst :=
  let begun : PasteBurst :=
    { burst with buffer := burst.buffer ++ grabbed, active := true }
  begun.extendWindow now

/-- `append_char_to_buffer`. -/
def appendCharToBuffer (burst : PasteBurst) (ch : Char) (now : Instant) : PasteBurst :=
  let longer : PasteBurst :=
    { burst with buffer := burst.buffer ++ [ch] }
  longer.extendWindow now

/-- `try_append_char_if_active`: the burst with the character, if it was captured. -/
def tryAppendCharIfActive (burst : PasteBurst) (ch : Char) (now : Instant) : Option PasteBurst :=
  if burst.isActiveInternal then some (burst.appendCharToBuffer ch now) else none

/-- `decide_begin_buffer`. -/
def decideBeginBuffer (burst : PasteBurst) (now : Instant) (before : Text) (retroChars : ℕ) :
    Option (RetroGrab × PasteBurst) :=
  let startByte := retroStartIndex before retroChars
  let grabbed := onward before startByte
  if grabbed.any Text.isWhitespace || 16 ≤ grabbed.length then
    some (⟨startByte, grabbed⟩, burst.beginWithRetroGrabbed grabbed now)
  else none

/-- `flush_before_modified_input`. -/
def flushBeforeModifiedInput (burst : PasteBurst) : Option (Text × PasteBurst) :=
  if burst.isActive then
    some (burst.buffer ++ (burst.pendingFirstChar.map Prod.fst).toList,
      { burst with active := false, buffer := [], pendingFirstChar := none })
  else none

/-- `clear_after_explicit_paste`. -/
def clearAfterExplicitPaste (burst : PasteBurst) : PasteBurst :=
  { burst with
    lastPlainCharTime := none
    consecutivePlainCharBurst := 0
    burstWindowUntil := none
    active := false
    buffer := []
    pendingFirstChar := none }

end PasteBurst

/-! ## The composer -/

/-- `LARGE_PASTE_CHAR_THRESHOLD`. -/
def largePasteCharThreshold : ℕ := 1000

/-- `str::replace` of `"\r\n"` by `"\n"`. -/
def replaceCrLf : Text → Text
  | [] => []
  | c :: text =>
      if c = '\r' ∧ text.head? = some '\n' then replaceCrLf text else c :: replaceCrLf text

/-- The line ends of a paste, as `handle_paste` normalizes them. -/
def normalizeLineEnds (pasted : Text) : Text :=
  (replaceCrLf pasted).map fun c => if c = '\r' then '\n' else c

/-- `clamp_to_char_boundary`. -/
def clampToCharBoundary (text : Text) (pos : ℕ) : ℕ :=
  let p := min pos (len text)
  if p < len text ∧ ¬isCharBoundary text p then
    ((((charIndices text).map Prod.fst).takeWhile (· ≤ p)).getLast?).getD 0
  else p

/-- The control chords that some terminals send as plain characters. -/
def isControlChord (ch : Char) : Bool :=
  ch == '\x02' || ch == '\x06' || ch == '\x10' || ch == '\x0e'

/-- `TextArea::input` for a character without modifiers. -/
def TextArea.input (area : TextArea) (ch : Char) : Option TextArea :=
  if isControlChord ch then none else some (area.insertStr [ch])

/-- What of `ChatComposer` the keys act on. -/
structure ChatComposer where
  textarea : TextArea
  pasteBurst : PasteBurst

namespace ChatComposer

/-- A new composer. -/
def new : ChatComposer where
  textarea := .new
  pasteBurst := .default

/-- `handle_paste`. -/
def handlePaste (composer : ChatComposer) (pasted : Text) : Option ChatComposer :=
  let pasted := normalizeLineEnds pasted
  if largePasteCharThreshold < pasted.length then none
  else
    some
      { textarea := composer.textarea.insertStr pasted
        pasteBurst := composer.pasteBurst.clearAfterExplicitPaste }

/-- `handle_paste_burst_flush`. -/
def handlePasteBurstFlush (composer : ChatComposer) (now : Instant) : Option ChatComposer :=
  match composer.pasteBurst.flushIfDue now with
  | (.paste pasted, burst) => ChatComposer.handlePaste ⟨composer.textarea, burst⟩ pasted
  | (.typed ch, burst) => some ⟨composer.textarea.insertStr [ch], burst⟩
  | (.none, burst) => some ⟨composer.textarea, burst⟩

/-- Flush the burst in front of input that does not join it. -/
def flushBeforeModifiedInput (composer : ChatComposer) : Option ChatComposer :=
  match composer.pasteBurst.flushBeforeModifiedInput with
  | some (pasted, burst) => ChatComposer.handlePaste ⟨composer.textarea, burst⟩ pasted
  | none => some composer

/-- The branch for `BeginBuffer`, which both paths have: cut the characters that are already in the
text, and begin a buffer with them, if they look like a paste. -/
def beginBuffer (composer : ChatComposer) (ch : Char) (now : Instant) (retroChars : ℕ) :
    Option ChatComposer :=
  let safeCur := clampToCharBoundary composer.textarea.text composer.textarea.cursorPos
  let before := upTo composer.textarea.text safeCur
  (composer.pasteBurst.decideBeginBuffer now before retroChars).map fun (grab, burst) =>
    { textarea :=
        if grab.grabbed.isEmpty then composer.textarea
        else composer.textarea.replaceRange ⟨grab.startByte, safeCur⟩ []
      pasteBurst := burst.appendCharToBuffer ch now }

/-- The end of both paths: the character is inserted as typed. -/
def insertTyped (composer : ChatComposer) (ch : Char) : Option ChatComposer :=
  composer.flushBeforeModifiedInput.bind fun composer =>
    (composer.textarea.input ch).map fun area => ⟨area, composer.pasteBurst⟩

/-- What `handle_non_ascii_char` does when there is no burst to join, or none any more. -/
def handleUnheldNonAsciiChar (composer : ChatComposer) (ch : Char) (now : Instant) :
    Option ChatComposer :=
  match composer.pasteBurst.onPlainCharNoHold now with
  | (some .bufferAppend, burst) => some ⟨composer.textarea, burst.appendCharToBuffer ch now⟩
  | (some (.beginBuffer retroChars), burst) =>
      let noted : ChatComposer := ⟨composer.textarea, burst⟩
      (noted.beginBuffer ch now retroChars).or (noted.insertTyped ch)
  | (none, burst) => ChatComposer.insertTyped ⟨composer.textarea, burst⟩ ch
  -- `unreachable!`
  | (some .retainFirstChar, _) | (some .beginBufferFromPending, _) => none

/-- `handle_non_ascii_char`. -/
def handleNonAsciiChar (composer : ChatComposer) (ch : Char) (now : Instant) :
    Option ChatComposer :=
  match composer.pasteBurst.tryAppendCharIfActive ch now with
  | some burst => some ⟨composer.textarea, burst⟩
  | none =>
      composer.flushBeforeModifiedInput.bind fun composer =>
        composer.handleUnheldNonAsciiChar ch now

/-- What `handle_input_basic_with_time` does with a plain ASCII character, behind the flush. -/
def handleAsciiChar (composer : ChatComposer) (ch : Char) (now : Instant) : Option ChatComposer :=
  match composer.pasteBurst.onPlainChar ch now with
  | (.bufferAppend, burst) | (.beginBufferFromPending, burst) =>
      some ⟨composer.textarea, burst.appendCharToBuffer ch now⟩
  | (.beginBuffer retroChars, burst) =>
      let noted : ChatComposer := ⟨composer.textarea, burst⟩
      (noted.beginBuffer ch now retroChars).or (noted.insertTyped ch)
  | (.retainFirstChar, burst) => some ⟨composer.textarea, burst⟩

/-- `handle_input_basic_with_time` for a character without modifiers. -/
def handleInputBasicWithTime (composer : ChatComposer) (ch : Char) (now : Instant) :
    Option ChatComposer :=
  (composer.handlePasteBurstFlush now).bind fun composer =>
    if ch.toNat < 128 then composer.handleAsciiChar ch now
    else composer.handleNonAsciiChar ch now

/-- `handle_submission_with_time`, up to where a newline is absorbed.  Whether the text and the
popups make a slash context is a parameter; there, a bare slash command is dispatched first. -/
def handleSubmissionWithTime (inSlashContext : Text → Bool) (composer : ChatComposer)
    (now : Instant) : Option ChatComposer :=
  if inSlashContext composer.textarea.text then none
  else
    match composer.pasteBurst.appendNewlineIfActive now with
    | some burst => some ⟨composer.textarea, burst⟩
    | none =>
        if composer.pasteBurst.newlineShouldInsertInsteadOfSubmit now then
          some ⟨composer.textarea.insertStr ['\n'], composer.pasteBurst.extendWindow now⟩
        else none

/-- The text, followed by the buffer of the burst and the character that is held. -/
def pieces (composer : ChatComposer) : Text :=
  composer.textarea.text ++
    (composer.pasteBurst.buffer ++ (composer.pasteBurst.pendingFirstChar.map Prod.fst).toList)

end ChatComposer

/-! ## Typing -/

/-- What happens to the composer. -/
inductive Key where
  | char (ch : Char)
  | enter
  | tick
  deriving DecidableEq

/-- A key or a tick, and when it comes. -/
structure Stroke where
  key : Key
  now : Instant

/-- What a key types. -/
def Key.typed : Key → Text
  | .char ch => [ch]
  | .enter => ['\n']
  | .tick => []

/-- What the strokes type. -/
def typedBy (strokes : List Stroke) : Text := strokes.flatMap fun stroke => stroke.key.typed

/-- A composer, with all that has been typed and the time of the last stroke. -/
structure Session where
  composer : ChatComposer
  typed : Text
  latest : Instant

namespace Session

/-- Nothing has been typed yet. -/
def start : Session where
  composer := .new
  typed := []
  latest := 0

variable (inSlashContext : Text → Bool)

/-- What the composer does with a stroke. -/
def handle (composer : ChatComposer) (stroke : Stroke) : Option ChatComposer :=
  match stroke.key with
  | .char ch => composer.handleInputBasicWithTime ch stroke.now
  | .enter => composer.handleSubmissionWithTime inSlashContext stroke.now
  | .tick => composer.handlePasteBurstFlush stroke.now

/-- A stroke, not before the last one. -/
def step (session : Session) (stroke : Stroke) : Option Session :=
  if stroke.now < session.latest then none
  else
    (handle inSlashContext session.composer stroke).map fun composer =>
      { composer
        typed := session.typed ++ stroke.key.typed
        latest := stroke.now }

/-- Nothing is lost, repeated or out of order, and all that has been typed is in the text after a
tick that is late enough. -/
structure Delivers (session : Session) : Prop where
  ordered : session.composer.pieces = session.typed
  arrives : ∀ now, session.latest + pasteBurstActiveIdleTimeout < now →
    ∃ after, session.composer.handlePasteBurstFlush now = some after ∧
      after.textarea.text = session.typed

/-- No Enter comes while a character is held. -/
def EnterUnheld (session : Session) (stroke : Stroke) : Prop :=
  stroke.key = .enter → session.composer.pasteBurst.pendingFirstChar = none

instance : DecidableRel EnterUnheld := fun _ _ => inferInstanceAs (Decidable (_ → _))

end Session

end CodexPilot.Composer
