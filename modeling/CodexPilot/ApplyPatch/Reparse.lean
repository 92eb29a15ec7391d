import CodexPilot.ApplyPatch.LineMachine
import Mathlib.Algebra.BigOperators.Group.List.Basic
import Mathlib.Algebra.Ring.Nat
import Mathlib.Algebra.Ring.Prod

/-!
# Parsing a stored patch again

The text kept with a parsed patch is its lines joined again, and reading it back takes one more
carriage return off every line.  The two readings go through the same headers, so the second one
always succeeds; it gives the same hunks exactly when no carriage return at the end of a line
reached a hunk and no chunk was cut by a lone carriage return.
-/

namespace CodexPilot.ApplyPatch

open RustStd

/-! ## Carriage returns that matter -/

def endsInReturn (line : Text) : Bool := line.getLast? == some '\r'

/-- A line that starts like a diff line. -/
def isDiffLine (line : Text) : Bool := line.head? ∈ [some ' ', some '+', some '-']

namespace Mode

/-- Whether a line between two chunks ends up in a hunk; only the first chunk may start without a
context marker. -/
def storesBetween (firstChunk : Bool) (line : Text) : Bool :=
  line.startsWith changeContextMarker || firstChunk && decide (line.trim ≠ []) && isDiffLine line

/-- Whether the text of an accepted line ends up in a hunk. -/
def stores : Mode → Text → Bool
  | .idle, _ => false
  | .adding _ _, line => line.head? == some '+'
  | .fresh _, line => line.startsWith moveToMarker || storesBetween true line
  | .between draft, line => storesBetween draft.chunks.isEmpty line
  | .opened _ _, line => isDiffLine line
  | .inChunk _ _, line => isDiffLine line || line.startsWith changeContextMarker

/-- A lone carriage return ends a chunk, while the empty line that is left of it is a diff line. -/
def cutsChunk : Mode → Text → Bool
  | .inChunk _ _, line => line == ['\r']
  | _, _ => false

/-- A line that means something else without the carriage return at its end. -/
def fragile (mode : Mode) (line : Text) : Bool :=
  mode.stores line && endsInReturn line || mode.cutsChunk line

/-- The number of fragile lines that a run reads. -/
def fragileLines : Mode → List Text → ℕ
  | _, [] => 0
  | mode, line :: rest =>
      (mode.fragile line).toNat +
        match mode.step line with
        | some (_, next) => next.fragileLines rest
        | none => 0

end Mode

/-- No carriage return of the patch reaches a hunk or cuts a chunk. -/
def ReturnFree (patch : Text) : Prop :=
  ∀ lines, patchLines patch .lenient = .ok lines →
    Mode.idle.fragileLines lines.tail.dropLast = 0

/-! ## What an accepted line is -/

theorem stripCr_of_not_endsInReturn {line : Text} (kept : endsInReturn line = false) :
    Text.stripCr line = line :=
  Text.stripCr_of_getLast?_ne (by simpa [endsInReturn] using kept)

theorem length_stripCr_add (line : Text) :
    (Text.stripCr line).length + (endsInReturn line).toNat = line.length := by
  rcases Text.stripCr_cases line with ⟨noReturn, kept⟩ | ⟨front, rfl, stripped⟩
  · have notReturned : endsInReturn line = false := by simpa [endsInReturn] using noReturn
    simp [kept, notReturned]
  · simp [stripped, endsInReturn]

theorem endsInReturn_append {marker : Text} (noReturn : marker.getLast? ≠ some '\r') (rest : Text) :
    endsInReturn (marker ++ rest) = endsInReturn rest := by
  cases rest with
  | nil => simpa [endsInReturn] using noReturn
  | cons c rest => rw [endsInReturn, List.getLast?_append_of_ne_nil _ (by simp), endsInReturn]

theorem UpdateFileChunk.read_isSome (chunk : UpdateFileChunk) (line : Text) :
    (chunk.read line).isSome = true ↔ line = [] ∨ isDiffLine line = true := by
  rcases line with _ | ⟨c, content⟩
  · simp [read]
  by_cases space : c = ' '
  · simp [read, isDiffLine, space]
  by_cases plus : c = '+'
  · simp [read, isDiffLine, plus]
  by_cases minus : c = '-'
  · simp [read, isDiffLine, minus]
  · simp [read, isDiffLine, space, plus, minus]

theorem UpdateFileChunk.diff_of_read {chunk extended : UpdateFileChunk} {line : Text}
    (diff : chunk.read line = some extended) : line = [] ∨ isDiffLine line = true :=
  (chunk.read_isSome line).mp (by simp [diff])

theorem UpdateFileChunk.read_eq_none_iff {chunk : UpdateFileChunk} {line : Text} :
    chunk.read line = none ↔ line ≠ [] ∧ isDiffLine line = false := by
  rw [← Option.not_isSome_iff_eq_none, chunk.read_isSome line]
  simp

theorem isDiffLine_stripCr {line : Text} (diff : isDiffLine line = true) :
    isDiffLine (Text.stripCr line) = true := by
  cases line with
  | nil => simp [isDiffLine] at diff
  | cons c content =>
      have notReturn : c ≠ '\r' := by
        rintro rfl
        simp [isDiffLine] at diff
      rw [Text.stripCr_cons notReturn]
      simpa [isDiffLine] using diff

theorem isDiffLine_of_stripCr {line : Text} (diff : isDiffLine (Text.stripCr line) = true) :
    isDiffLine line = true := by
  rcases Text.stripCr_cases line with ⟨_, kept⟩ | ⟨front, rfl, stripped⟩
  · rwa [kept] at diff
  · rw [stripped] at diff
    cases front with
    | nil => simp [isDiffLine] at diff
    | cons c content => simpa [isDiffLine] using diff

theorem stripCr_contextLine (context : Option Text) :
    Text.stripCr (contextLine context) = contextLine (context.map Text.stripCr) := by
  cases context with
  | none => decide
  | some context => exact Text.stripCr_append (by decide) context

theorem contextLine_ne_eofMarker (context : Option Text) : contextLine context ≠ eofMarker := by
  intro same
  have heads : some '@' = some '*' := by
    cases context <;> exact congrArg List.head? same
  exact absurd heads (by decide)

namespace Mode

theorem readHeader_stripCr (line : Text) : readHeader (Text.stripCr line) = readHeader line := by
  rw [readHeader, readHeader, Text.trim_stripCr]

theorem closeAndReadHeader_stripCr (mode : Mode) (line : Text) :
    closeAndReadHeader mode (Text.stripCr line) = closeAndReadHeader mode line := by
  rw [closeAndReadHeader, closeAndReadHeader, readHeader_stripCr]

theorem closeAndReadHeader_eq_some {mode : Mode} {line : Text} {read : List Hunk × Mode}
    (closed : closeAndReadHeader mode line = some read) :
    ∃ completed header, mode.close = some completed ∧ readHeader line = some header ∧
      read = (completed ++ header.1, header.2) := by
  simp only [closeAndReadHeader, Option.bind_eq_bind, Option.bind_eq_some_iff] at closed
  obtain ⟨completed, modeClosed, header, headed, same⟩ := closed
  exact ⟨completed, header, modeClosed, headed, (Option.some.inj same).symm⟩

/-- The ways a line between two chunks is accepted. -/
theorem readBetween_cases {draft : Draft} {line : Text} {read : List Hunk × Mode}
    (accepted : readBetween draft line = some read) :
    (line.trim = [] ∧ read = ([], between draft)) ∨
      (line.trim ≠ [] ∧ line.startsWith headerStart = true ∧
        closeAndReadHeader (between draft) line = some read) ∨
      (∃ context, line = contextLine context ∧ read = ([], opened draft context)) ∨
      (draft.chunks = [] ∧ line.trim ≠ [] ∧ line.startsWith headerStart ≠ true ∧
        line.stripPrefix changeContextMarker = none ∧ readFirst draft none line = some read) := by
  by_cases blank : line.trim = []
  · rw [readBetween, if_pos blank] at accepted
    exact Or.inl ⟨blank, (Option.some.inj accepted).symm⟩
  by_cases header : line.startsWith headerStart = true
  · rw [readBetween, if_neg blank, if_pos header] at accepted
    exact Or.inr (Or.inl ⟨blank, header, accepted⟩)
  rw [readBetween_visible blank header] at accepted
  split at accepted
  · rename_i unmarked
    exact Or.inr (Or.inr (Or.inl ⟨none, unmarked, (Option.some.inj accepted).symm⟩))
  · cases stripped : line.stripPrefix changeContextMarker with
    | some context =>
        rw [stripped] at accepted
        exact Or.inr (Or.inr (Or.inl ⟨some context, Text.stripPrefix_eq_some_iff.mp stripped,
          (Option.some.inj accepted).symm⟩))
    | none =>
        rw [stripped] at accepted
        simp only [Option.ite_none_right_eq_some] at accepted
        exact Or.inr (Or.inr (Or.inr ⟨accepted.1, blank, header, rfl, accepted.2⟩))

theorem readFirst_eq_some {draft : Draft} {context : Option Text} {line : Text}
    {read : List Hunk × Mode} (accepted : readFirst draft context line = some read) :
    ∃ chunk, (emptyChunk context).read line = some chunk ∧ read = ([], inChunk draft chunk) := by
  simp only [readFirst, Option.ite_none_left_eq_some, Option.map_eq_some_iff] at accepted
  obtain ⟨_, chunk, diff, same⟩ := accepted
  exact ⟨chunk, diff, same.symm⟩

theorem readFirst_of_read {draft : Draft} {context : Option Text} {line : Text}
    {chunk : UpdateFileChunk} (diff : (emptyChunk context).read line = some chunk) :
    readFirst draft context line = some ([], inChunk draft chunk) := by
  have notEof : line ≠ eofMarker := by
    rintro rfl
    cases diff
  simp [readFirst, notEof, diff]

theorem readInChunk_of_read {draft : Draft} {chunk extended : UpdateFileChunk} {line : Text}
    (diff : chunk.read line = some extended) :
    readInChunk draft chunk line = some ([], inChunk draft extended) := by
  have notEof : line ≠ eofMarker := by
    rintro rfl
    cases diff
  simp [readInChunk, notEof, diff]

/-- A line that leaves a chunk is not the end-of-file marker with a carriage return behind it. -/
theorem stripCr_ne_eofMarker {draft : Draft} {line : Text} {read : List Hunk × Mode}
    (nonempty : draft.chunks ≠ []) (accepted : readBetween draft line = some read) :
    Text.stripCr line ≠ eofMarker := by
  intro isEof
  have trimmed : line.trim = eofMarker := by
    rw [← Text.trim_stripCr, isEof]
    decide
  rcases readBetween_cases accepted with ⟨blank, _⟩ | ⟨_, _, closed⟩ | ⟨context, same, _⟩ | first
  · rw [blank] at trimmed
    exact absurd trimmed (by decide)
  · obtain ⟨_, header, _, headed, _⟩ := closeAndReadHeader_eq_some closed
    rw [← readHeader_stripCr, isEof] at headed
    cases headed
  · rw [same, stripCr_contextLine] at isEof
    exact contextLine_ne_eofMarker _ isEof
  · exact nonempty first.1

/-- Where a line that is not a diff line leaves a chunk. -/
theorem readInChunk_of_returned {draft : Draft} {chunk : UpdateFileChunk} {line : Text}
    {read : List Hunk × Mode} (accepted : readInChunk draft chunk line = some read)
    (returned : endsInReturn line = true) (notDiff : isDiffLine line = false) :
    chunk.read line = none ∧ readBetween (draft.push chunk) line = some read := by
  have notEof : line ≠ eofMarker := by
    rintro rfl
    exact absurd returned (by decide)
  have nonempty : line ≠ [] := by
    rintro rfl
    cases returned
  have unread : chunk.read line = none :=
    UpdateFileChunk.read_eq_none_iff.mpr ⟨nonempty, notDiff⟩
  rw [readInChunk, if_neg notEof, unread] at accepted
  exact ⟨unread, accepted⟩

/-- Only a lone carriage return turns into a diff line. -/
theorem read_stripCr_eq_none {chunk : UpdateFileChunk} {line : Text}
    (unread : chunk.read line = none) (notLone : line ≠ ['\r']) :
    chunk.read (Text.stripCr line) = none := by
  obtain ⟨nonempty, notDiff⟩ := UpdateFileChunk.read_eq_none_iff.mp unread
  refine UpdateFileChunk.read_eq_none_iff.mpr ⟨?_, ?_⟩
  · intro empty
    rcases Text.stripCr_cases line with ⟨_, kept⟩ | ⟨front, rfl, stripped⟩
    · exact nonempty (kept ▸ empty)
    · rw [stripped.symm.trans empty] at notLone
      exact notLone rfl
  · cases diff : isDiffLine (Text.stripCr line) with
    | false => rfl
    | true =>
        rw [isDiffLine_of_stripCr diff] at notDiff
        cases notDiff

/-! ## Without fragile lines -/

theorem head?_of_stripCr {line : Text} {c : Char} (head : (Text.stripCr line).head? = some c) :
    line.head? = some c := by
  rcases Text.stripCr_cases line with ⟨_, kept⟩ | ⟨front, rfl, stripped⟩
  · rwa [kept] at head
  · rw [stripped] at head
    rw [List.head?_append, head]
    rfl

theorem readBetween_of_not_fragile {draft : Draft} {line : Text} {read : List Hunk × Mode}
    (accepted : readBetween draft line = some read) (returned : endsInReturn line = true)
    (skipped : storesBetween draft.chunks.isEmpty line = false) :
    readBetween draft (Text.stripCr line) = some read := by
  rcases readBetween_cases accepted with ⟨blank, rfl⟩ | ⟨visible, header, closed⟩ |
    ⟨context, rfl, rfl⟩ | ⟨first, visible, _, _, diff⟩
  · simp [readBetween, Text.trim_stripCr, blank]
  · have starred : (Text.stripCr line).startsWith headerStart = true := by
      rw [Text.startsWith_stripCr (by decide), header]
    simp [readBetween, Text.trim_stripCr, visible, starred, closeAndReadHeader_stripCr, closed]
  · cases context with
    | none => exact absurd returned (by decide)
    | some context =>
        have starts : (contextLine (some context)).startsWith changeContextMarker = true :=
          Text.startsWith_iff.mpr (List.prefix_append _ _)
        simp [storesBetween, starts] at skipped
  · obtain ⟨chunk, diff, _⟩ := readFirst_eq_some diff
    have isDiff : isDiffLine line = true := by
      rcases UpdateFileChunk.diff_of_read diff with rfl | isDiff
      · exact absurd rfl visible
      · exact isDiff
    simp [storesBetween, first, visible, isDiff] at skipped

theorem not_endsInReturn_of_read {chunk extended : UpdateFileChunk} {line : Text}
    (diff : chunk.read line = some extended) (notDiff : isDiffLine line = false) :
    endsInReturn line = false := by
  rcases UpdateFileChunk.diff_of_read diff with rfl | isDiff
  · rfl
  · rw [notDiff] at isDiff
    cases isDiff

/-- A line that is not fragile is read alike without its carriage return. -/
theorem step_stripCr_of_not_fragile {mode : Mode} {line : Text} {read : List Hunk × Mode}
    (stepped : mode.step line = some read) (solid : mode.fragile line = false) :
    mode.step (Text.stripCr line) = some read := by
  cases returned : endsInReturn line with
  | false => rwa [stripCr_of_not_endsInReturn returned]
  | true =>
      simp only [fragile, returned, Bool.and_true, Bool.or_eq_false_iff] at solid
      obtain ⟨skipped, uncut⟩ := solid
      cases mode with
      | idle =>
          rw [← stepped]
          exact readHeader_stripCr line
      | adding path contents =>
          have notPlus : line.head? ≠ some '+' := by simpa [stores] using skipped
          rw [step_adding_of_ne notPlus] at stepped
          rw [step_adding_of_ne fun plus => notPlus (head?_of_stripCr plus),
            closeAndReadHeader_stripCr, stepped]
      | fresh path =>
          simp only [stores, Bool.or_eq_false_iff, Text.startsWith_eq_isSome,
            Option.isSome_eq_false_iff, Option.isNone_iff_eq_none] at skipped
          obtain ⟨unmoved, skipped⟩ := skipped
          have unmovedAgain : (Text.stripCr line).stripPrefix moveToMarker = none := by
            rw [Text.stripPrefix_stripCr (by decide), unmoved]
            rfl
          simp only [step, unmoved] at stepped
          simp only [step, unmovedAgain]
          exact readBetween_of_not_fragile stepped returned skipped
      | between draft => exact readBetween_of_not_fragile stepped returned skipped
      | opened draft context =>
          obtain ⟨chunk, diff, _⟩ := readFirst_eq_some stepped
          have kept := not_endsInReturn_of_read diff skipped
          rw [kept] at returned
          cases returned
      | inChunk draft chunk =>
          simp only [stores, Bool.or_eq_false_iff] at skipped
          obtain ⟨notDiff, notContext⟩ := skipped
          obtain ⟨unread, left⟩ := readInChunk_of_returned stepped returned notDiff
          have unreadAgain : chunk.read (Text.stripCr line) = none :=
            read_stripCr_eq_none unread (by simpa [cutsChunk] using uncut)
          have notEof := stripCr_ne_eofMarker (by simp) left
          have leftAgain := readBetween_of_not_fragile left returned
            (by simpa [storesBetween] using notContext)
          simp [step, readInChunk, notEof, unreadAgain, leftAgain]

theorem run_stripCr_of_solid {mode : Mode} {lines : List Text} {hunks : List Hunk}
    (ran : mode.run lines = some hunks) (solid : mode.fragileLines lines = 0) :
    mode.run (lines.map Text.stripCr) = some hunks := by
  induction lines generalizing mode hunks with
  | nil => exact ran
  | cons line rest ih =>
      rw [run_cons] at ran
      obtain ⟨⟨completed, next⟩, stepped, ran⟩ := Option.bind_eq_some_iff.mp ran
      obtain ⟨later, laterRan, rfl⟩ := Option.map_eq_some_iff.mp ran
      rw [fragileLines, stepped] at solid
      have lineSolid : mode.fragile line = false := by
        cases value : mode.fragile line with
        | false => rfl
        | true => simp [value] at solid
      rw [List.map_cons, run_cons, step_stripCr_of_not_fragile stepped lineSolid]
      simp [ih laterRan (by simpa [lineSolid] using solid)]

end Mode

/-! ## How much a hunk holds -/

/-- The number of stored lines and of stored characters. -/
abbrev Volume := ℕ × ℕ

def UpdateFileChunk.volume (chunk : UpdateFileChunk) : Volume :=
  (chunk.oldLines.length + chunk.newLines.length,
    (chunk.changeContext.getD []).length + chunk.oldLines.flatten.length +
      chunk.newLines.flatten.length)

def Draft.volume (draft : Draft) : Volume :=
  (0, (draft.movePath.getD []).length) + (draft.chunks.map UpdateFileChunk.volume).sum

def Hunk.volume : Hunk → Volume
  | .addFile _ contents => (0, contents.length)
  | .deleteFile _ => 0
  | .updateFile path movePath chunks => Draft.volume ⟨path, movePath, chunks⟩

/-- The volume of a patch. -/
def hunksVolume (hunks : List Hunk) : Volume := (hunks.map Hunk.volume).sum

def Mode.volume : Mode → Volume
  | .idle => 0
  | .adding _ contents => (0, contents.length)
  | .fresh _ => 0
  | .between draft => draft.volume
  | .opened draft context => draft.volume + (emptyChunk context).volume
  | .inChunk draft chunk => draft.volume + chunk.volume

@[simp]
theorem Draft.volume_push (draft : Draft) (chunk : UpdateFileChunk) :
    (draft.push chunk).volume = draft.volume + chunk.volume := by
  simp [volume, push, add_assoc]

@[simp]
theorem UpdateFileChunk.volume_atEnd (chunk : UpdateFileChunk) (isEndOfFile : Bool) :
    { chunk with isEndOfFile := isEndOfFile }.volume = chunk.volume := rfl

@[simp]
theorem hunksVolume_nil : hunksVolume [] = 0 := rfl

@[simp]
theorem hunksVolume_append (left right : List Hunk) :
    hunksVolume (left ++ right) = hunksVolume left + hunksVolume right := by
  simp [hunksVolume]

theorem Mode.volume_of_close {mode : Mode} {completed : List Hunk}
    (closed : mode.close = some completed) : hunksVolume completed = mode.volume := by
  cases mode with
  | idle =>
      cases closed
      rfl
  | adding path contents =>
      cases closed
      simp [hunksVolume, Hunk.volume, volume]
  | fresh path => cases closed
  | between draft =>
      simp only [close, Option.ite_none_left_eq_some] at closed
      cases closed.2
      simp [hunksVolume, Hunk.volume, Draft.hunk, volume]
  | opened draft context => cases closed
  | inChunk draft chunk =>
      cases closed
      simp only [hunksVolume, List.map_cons, List.map_nil, List.sum_cons, List.sum_nil, add_zero]
      exact Draft.volume_push draft chunk

/-- What a diff line adds to its chunk. -/
def diffVolume : Text → Volume
  | [] => (2, 0)
  | ' ' :: content => (2, 2 * content.length)
  | _ :: content => (1, content.length)

theorem isDiffLine_cases {line : Text} (diff : isDiffLine line = true) :
    ∃ c content, line = c :: content ∧ (c = ' ' ∨ c = '+' ∨ c = '-') := by
  cases line with
  | nil => simp [isDiffLine] at diff
  | cons c content => exact ⟨c, content, rfl, by simpa [isDiffLine] using diff⟩

theorem UpdateFileChunk.volume_of_read {chunk extended : UpdateFileChunk} {line : Text}
    (diff : chunk.read line = some extended) :
    extended.volume = chunk.volume + diffVolume line := by
  rcases diff_of_read diff with rfl | isDiff
  · cases diff
    simp [volume, diffVolume]
    omega
  · obtain ⟨c, content, rfl, rfl | rfl | rfl⟩ := isDiffLine_cases isDiff <;> cases diff <;>
      simp [volume, diffVolume] <;> omega

theorem diffVolume_stripCr {line : Text} (diff : isDiffLine line = true) :
    (diffVolume (Text.stripCr line)).1 = (diffVolume line).1 ∧
      (diffVolume (Text.stripCr line)).2 + (endsInReturn line).toNat ≤ (diffVolume line).2 := by
  obtain ⟨c, content, rfl, isDiff⟩ := isDiffLine_cases diff
  have notReturn : c ≠ '\r' := by rcases isDiff with rfl | rfl | rfl <;> decide
  have shorter := length_stripCr_add content
  have returned : endsInReturn (c :: content) = endsInReturn content :=
    @endsInReturn_append [c] (by simpa using notReturn) content
  rw [returned]
  rw [Text.stripCr_cons notReturn]
  rcases isDiff with rfl | rfl | rfl
  · refine ⟨rfl, ?_⟩
    simp only [diffVolume]
    omega
  · exact ⟨rfl, shorter.le⟩
  · exact ⟨rfl, shorter.le⟩

/-- The second of two growing volumes gets ahead: it gains more lines, or as many lines and fewer
characters, by at least `margin`. -/
def Outgrows (margin : ℕ) (left left' right right' : Volume) : Prop :=
  left'.1 + right.1 < right'.1 + left.1 ∨
    left'.1 + right.1 = right'.1 + left.1 ∧ right'.2 + left.2 + margin ≤ left'.2 + right.2

theorem Outgrows.of_le {low high : ℕ} {left left' right right' : Volume} (within : low ≤ high)
    (ahead : Outgrows high left left' right right') : Outgrows low left left' right right' := by
  rcases ahead with more | ⟨same, fewer⟩
  · exact Or.inl more
  · exact Or.inr ⟨same, by omega⟩

theorem outgrows_same (left right gain : Volume) :
    Outgrows 0 left (gain + left) right (gain + right) := by
  refine Or.inr ⟨?_, ?_⟩ <;> simp only [Prod.fst_add, Prod.snd_add] <;> omega

/-- A stored text that loses the carriage return at its end. -/
theorem outgrows_text {margin : ℕ} {text : Text} (within : margin ≤ (endsInReturn text).toNat)
    (left right : Volume) (extra : ℕ) :
    Outgrows margin left (left + (0, text.length + extra))
      right (right + (0, (Text.stripCr text).length + extra)) := by
  have shorter := length_stripCr_add text
  refine Or.inr ⟨?_, ?_⟩ <;> simp only [Prod.fst_add, Prod.snd_add] <;> omega

/-! ## The second reading -/

/-- Two drafts of one file, read with and without carriage returns. -/
structure Draft.Resembles (left right : Draft) : Prop where
  path : right.path = left.path
  movePath : right.movePath = left.movePath.map Text.stripCr
  chunks : right.chunks.length = left.chunks.length

/-- Two hunks of one file, read with and without carriage returns. -/
def Hunk.Resembles : Hunk → Hunk → Prop
  | .addFile path _, .addFile path' _ => path' = path
  | .deleteFile path, .deleteFile path' => path' = path
  | .updateFile path movePath _, .updateFile path' movePath' _ =>
      path' = path ∧ movePath' = movePath.map Text.stripCr
  | _, _ => False

namespace Draft.Resembles

variable {left right : Draft}

theorem chunks_eq_nil (resembles : left.Resembles right) :
    right.chunks = [] ↔ left.chunks = [] := by
  rw [← List.length_eq_zero_iff, resembles.chunks, List.length_eq_zero_iff]

theorem push (resembles : left.Resembles right) (chunk chunk' : UpdateFileChunk) :
    (left.push chunk).Resembles (right.push chunk') where
  path := resembles.path
  movePath := resembles.movePath
  chunks := by simp [resembles.chunks]

theorem nonempty_of_push {chunk : UpdateFileChunk} (resembles : left.Resembles (right.push chunk)) :
    left.chunks ≠ [] := by
  intro empty
  have both := resembles.chunks_eq_nil.mpr empty
  simp at both

theorem hunk (resembles : left.Resembles right) : left.hunk.Resembles right.hunk :=
  ⟨resembles.path, resembles.movePath⟩

end Draft.Resembles

namespace Mode

/-- What the second reading is doing while the first one is in a given mode. -/
inductive Follows : Mode → Mode → Prop where
  | idle : Follows .idle .idle
  | adding (path : PathBuf) (contents contents' : Text) :
      Follows (.adding path contents) (.adding path contents')
  | fresh (path : PathBuf) : Follows (.fresh path) (.fresh path)
  | between {draft draft' : Draft} (resembles : draft.Resembles draft') :
      Follows (.between draft) (.between draft')
  | opened {draft draft' : Draft} (resembles : draft.Resembles draft')
      (context context' : Option Text) :
      Follows (.opened draft context) (.opened draft' context')
  | inChunk {draft draft' : Draft} (resembles : draft.Resembles draft')
      (chunk chunk' : UpdateFileChunk) :
      Follows (.inChunk draft chunk) (.inChunk draft' chunk')
  /-- A lone carriage return ended the chunk for the first reading only. -/
  | late {draft draft' : Draft} {chunk' : UpdateFileChunk}
      (resembles : draft.Resembles (draft'.push chunk')) :
      Follows (.between draft) (.inChunk draft' chunk')

/-- One accepted line, read from two modes. -/
structure StepFollows (margin : ℕ) (left right : Mode) (read read' : List Hunk × Mode) : Prop where
  hunks : List.Forall₂ Hunk.Resembles read.1 read'.1
  follows : read.2.Follows read'.2
  outgrows : Outgrows margin left.volume (hunksVolume read.1 + read.2.volume)
    right.volume (hunksVolume read'.1 + read'.2.volume)

theorem StepFollows.of_le {low high : ℕ} {left right : Mode} {read read' : List Hunk × Mode}
    (within : low ≤ high) (follows : StepFollows high left right read read') :
    StepFollows low left right read read' :=
  ⟨follows.hunks, follows.follows, follows.outgrows.of_le within⟩

theorem close_follows {left right : Mode} (follows : left.Follows right) {completed : List Hunk}
    (closed : left.close = some completed) :
    ∃ completed', right.close = some completed' ∧
      List.Forall₂ Hunk.Resembles completed completed' := by
  cases follows with
  | idle =>
      cases closed
      exact ⟨[], rfl, List.Forall₂.nil⟩
  | adding path contents contents' =>
      cases closed
      exact ⟨_, rfl, List.Forall₂.cons rfl List.Forall₂.nil⟩
  | fresh path => cases closed
  | between resembles =>
      simp only [close, Option.ite_none_left_eq_some] at closed
      obtain ⟨nonempty, same⟩ := closed
      cases same
      refine ⟨_, ?_, List.Forall₂.cons resembles.hunk List.Forall₂.nil⟩
      simp [close, resembles.chunks_eq_nil, nonempty]
  | opened resembles context context' => cases closed
  | inChunk resembles chunk chunk' =>
      cases closed
      exact ⟨_, rfl, List.Forall₂.cons (resembles.push chunk chunk').hunk List.Forall₂.nil⟩
  | late resembles =>
      simp only [close, Option.ite_none_left_eq_some] at closed
      obtain ⟨nonempty, same⟩ := closed
      cases same
      exact ⟨_, rfl, List.Forall₂.cons resembles.hunk List.Forall₂.nil⟩

theorem readHeader_volume {line : Text} {read : List Hunk × Mode}
    (headed : readHeader line = some read) :
    hunksVolume read.1 + read.2.volume = 0 ∧ read.2.Follows read.2 ∧
      List.Forall₂ Hunk.Resembles read.1 read.1 := by
  unfold readHeader at headed
  split at headed
  · cases headed
    exact ⟨rfl, Follows.adding _ _ _, List.Forall₂.nil⟩
  · split at headed
    · cases headed
      exact ⟨rfl, Follows.idle, List.Forall₂.cons rfl List.Forall₂.nil⟩
    · obtain ⟨path, _, rfl⟩ := Option.map_eq_some_iff.mp headed
      exact ⟨rfl, Follows.fresh path, List.Forall₂.nil⟩

/-- The two readings meet again at the next header. -/
theorem closeAndReadHeader_follows {left right : Mode} (follows : left.Follows right) {line : Text}
    {read : List Hunk × Mode} (closed : closeAndReadHeader left line = some read) :
    ∃ read', closeAndReadHeader right (Text.stripCr line) = some read' ∧
      StepFollows 0 left right read read' := by
  obtain ⟨completed, header, leftClosed, headed, rfl⟩ := closeAndReadHeader_eq_some closed
  obtain ⟨completed', rightClosed, resembles⟩ := close_follows follows leftClosed
  obtain ⟨empty, headerFollows, headerResembles⟩ := readHeader_volume headed
  refine ⟨(completed' ++ header.1, header.2), ?_, ?_⟩
  · rw [closeAndReadHeader_stripCr, closeAndReadHeader, rightClosed, headed]
    rfl
  · refine ⟨List.rel_append resembles headerResembles, headerFollows, ?_⟩
    simp only [hunksVolume_append, add_assoc, empty, add_zero, volume_of_close leftClosed,
      volume_of_close rightClosed]
    simpa using outgrows_same left.volume right.volume 0

/-- A diff line goes into both chunks. -/
theorem read_follows {chunk extended chunk' : UpdateFileChunk} {line : Text}
    (diff : chunk.read line = some extended) :
    ∃ extended', chunk'.read (Text.stripCr line) = some extended' ∧
      Outgrows (endsInReturn line).toNat chunk.volume extended.volume
        chunk'.volume extended'.volume := by
  have again : ∃ extended', chunk'.read (Text.stripCr line) = some extended' := by
    rw [← Option.isSome_iff_exists, UpdateFileChunk.read_isSome]
    rcases UpdateFileChunk.diff_of_read diff with rfl | isDiff
    · exact Or.inl rfl
    · exact Or.inr (isDiffLine_stripCr isDiff)
  obtain ⟨extended', diff'⟩ := again
  refine ⟨extended', diff', ?_⟩
  rw [UpdateFileChunk.volume_of_read diff, UpdateFileChunk.volume_of_read diff']
  have gained : (diffVolume (Text.stripCr line)).1 = (diffVolume line).1 ∧
      (diffVolume (Text.stripCr line)).2 + (endsInReturn line).toNat ≤ (diffVolume line).2 := by
    rcases UpdateFileChunk.diff_of_read diff with rfl | isDiff
    · exact ⟨rfl, le_rfl⟩
    · exact diffVolume_stripCr isDiff
  refine Or.inr ⟨?_, ?_⟩ <;> simp only [Prod.fst_add, Prod.snd_add] <;> omega

theorem outgrows_draft {margin : ℕ} {left left' right right' : Volume} (base base' : Volume)
    (ahead : Outgrows margin left left' right right') :
    Outgrows margin (base + left) (base + left') (base' + right) (base' + right') := by
  simp only [Outgrows, Prod.fst_add, Prod.snd_add] at ahead ⊢
  omega

theorem readFirst_follows {draft draft' : Draft} (resembles : draft.Resembles draft')
    {context : Option Text} (context' : Option Text) {line : Text} {read : List Hunk × Mode}
    (accepted : readFirst draft context line = some read) :
    ∃ read', readFirst draft' context' (Text.stripCr line) = some read' ∧
      StepFollows (endsInReturn line).toNat (opened draft context) (opened draft' context')
        read read' := by
  obtain ⟨chunk, diff, rfl⟩ := readFirst_eq_some accepted
  obtain ⟨chunk', diff', ahead⟩ := @read_follows _ _ (emptyChunk context') _ diff
  refine ⟨_, readFirst_of_read diff', List.Forall₂.nil, Follows.inChunk resembles _ _, ?_⟩
  simpa [hunksVolume, volume] using outgrows_draft draft.volume draft'.volume ahead

theorem volume_opened_none (draft : Draft) :
    (opened draft none).volume = (between draft).volume := by
  simp [volume, emptyChunk, UpdateFileChunk.volume]

theorem toNat_fragile_le (mode : Mode) (line : Text) :
    (mode.fragile line).toNat ≤ (endsInReturn line).toNat := by
  cases returned : endsInReturn line with
  | true => exact Bool.toNat_le _
  | false =>
      have uncut : mode.cutsChunk line = false := by
        cases mode with
        | inChunk draft chunk =>
            rw [cutsChunk, beq_eq_false_iff_ne]
            rintro rfl
            cases returned
        | _ => rfl
      simp [fragile, returned, uncut]

theorem toNat_and_le (left right : Bool) : (left && right).toNat ≤ right.toNat := by
  cases left <;> simp

theorem storesBetween_of_blank (firstChunk : Bool) {line : Text} (blank : line.trim = []) :
    storesBetween firstChunk line = false := by
  have notContext : line.startsWith changeContextMarker = false := by
    cases starts : line.startsWith changeContextMarker with
    | false => rfl
    | true =>
        obtain ⟨context, rfl⟩ := Text.startsWith_iff.mp starts
        exact absurd blank (trim_context_ne_nil context)
  simp [storesBetween, notContext, blank]

theorem storesBetween_of_header (firstChunk : Bool) {line : Text}
    (header : line.startsWith headerStart = true) : storesBetween firstChunk line = false := by
  obtain ⟨rest, rfl⟩ := Text.startsWith_iff.mp header
  have notContext : Text.startsWith (headerStart ++ rest) changeContextMarker = false := rfl
  have notDiff : isDiffLine (headerStart ++ rest) = false := rfl
  simp [storesBetween, notContext, notDiff]

theorem outgrows_context (draft draft' : Draft) (context : Option Text) :
    Outgrows (endsInReturn (contextLine context)).toNat
      (between draft).volume (opened draft context).volume
      (between draft').volume (opened draft' (context.map Text.stripCr)).volume := by
  cases context with
  | none =>
      have kept : endsInReturn (contextLine none) = false := by decide
      simp only [Option.map_none, volume_opened_none, kept]
      simpa using outgrows_same (between draft).volume (between draft').volume 0
  | some context =>
      have returned : endsInReturn (contextLine (some context)) = endsInReturn context :=
        endsInReturn_append (by decide) context
      rw [returned]
      simpa [volume, emptyChunk, UpdateFileChunk.volume] using
        @outgrows_text _ context le_rfl draft.volume draft'.volume 0

theorem readBetween_follows {draft draft' : Draft} (resembles : draft.Resembles draft')
    {line : Text} {read : List Hunk × Mode} (accepted : readBetween draft line = some read) :
    ∃ read', readBetween draft' (Text.stripCr line) = some read' ∧
      StepFollows (storesBetween draft.chunks.isEmpty line && endsInReturn line).toNat
        (between draft) (between draft') read read' := by
  rcases readBetween_cases accepted with ⟨blank, rfl⟩ | ⟨visible, header, closed⟩ |
    ⟨context, rfl, rfl⟩ | ⟨first, visible, notHeader, notContext, diff⟩
  · refine ⟨([], between draft'), ?_, List.Forall₂.nil, Follows.between resembles, ?_⟩
    · simp [readBetween, Text.trim_stripCr, blank]
    · rw [storesBetween_of_blank _ blank]
      exact outgrows_same _ _ _
  · obtain ⟨read', closed', follows⟩ :=
      closeAndReadHeader_follows (Follows.between resembles) closed
    have starred : (Text.stripCr line).startsWith headerStart = true := by
      rw [Text.startsWith_stripCr (by decide), header]
    refine ⟨read', ?_, ?_⟩
    · simp [readBetween, Text.trim_stripCr, visible, starred, closed']
    · rwa [storesBetween_of_header _ header]
  · refine ⟨([], opened draft' (context.map Text.stripCr)), ?_, List.Forall₂.nil,
      Follows.opened resembles _ _, ?_⟩
    · rw [stripCr_contextLine]
      exact step_between_contextLine draft' (context.map Text.stripCr)
    · simpa [hunksVolume] using
        (outgrows_context draft draft' context).of_le (toNat_and_le _ _)
  · obtain ⟨read', diff', follows⟩ := readFirst_follows resembles none diff
    obtain ⟨chunk, isDiff, _⟩ := readFirst_eq_some diff'
    have visibleAgain : (Text.stripCr line).trim ≠ [] := by rwa [Text.trim_stripCr]
    have notHeaderAgain : (Text.stripCr line).startsWith headerStart ≠ true := by
      rwa [Text.startsWith_stripCr (by decide)]
    have marked : Text.stripCr line ≠ emptyChangeContextMarker := by
      intro same
      rw [same] at isDiff
      cases isDiff
    refine ⟨read', ?_, follows.hunks, follows.follows, ?_⟩
    · rw [readBetween_visible visibleAgain notHeaderAgain, if_neg marked,
        Text.stripPrefix_stripCr (by decide), notContext]
      simpa [resembles.chunks_eq_nil, first] using diff'
    · have ahead := follows.outgrows.of_le
        (toNat_and_le (storesBetween draft.chunks.isEmpty line) _)
      rwa [volume_opened_none, volume_opened_none] at ahead

/-- A line that takes both readings out of their chunks. -/
theorem leave_follows {draft draft' : Draft} {chunk' : UpdateFileChunk} {line : Text}
    {read : List Hunk × Mode} (resembles : draft.Resembles (draft'.push chunk'))
    (accepted : readBetween draft line = some read)
    (unread : chunk'.read (Text.stripCr line) = none) :
    ∃ read', readInChunk draft' chunk' (Text.stripCr line) = some read' ∧
      StepFollows (storesBetween false line && endsInReturn line).toNat
        (between draft) (inChunk draft' chunk') read read' := by
  have nonempty := resembles.nonempty_of_push
  obtain ⟨read', accepted', follows⟩ := readBetween_follows resembles accepted
  have notEof := stripCr_ne_eofMarker nonempty accepted
  refine ⟨read', ?_, follows.hunks, follows.follows, ?_⟩
  · rw [readInChunk, if_neg notEof, unread]
    exact accepted'
  · have ahead := follows.outgrows
    rw [List.isEmpty_eq_false_iff.mpr nonempty] at ahead
    simpa [volume] using ahead

/-- The second reading takes a diff line into its chunk while the first one passes over it. -/
theorem linger_follows {mode : Mode} {draft draft' : Draft} {chunk' extended : UpdateFileChunk}
    {line : Text} (margin : ℕ) (resembles : draft.Resembles (draft'.push chunk'))
    (sameVolume : mode.volume = draft.volume)
    (diff : chunk'.read (Text.stripCr line) = some extended) :
    StepFollows margin mode (inChunk draft' chunk') ([], between draft)
      ([], inChunk draft' extended) := by
  refine ⟨List.Forall₂.nil, Follows.late ⟨resembles.path, resembles.movePath, ?_⟩, Or.inl ?_⟩
  · simpa using resembles.chunks
  · have gained : 0 < (diffVolume (Text.stripCr line)).1 := by
      unfold diffVolume
      split <;> simp
    rw [sameVolume]
    simp only [volume, UpdateFileChunk.volume_of_read diff, hunksVolume_nil, zero_add, Prod.fst_add]
    omega

/-- Only a blank line is accepted between chunks and taken into a chunk without its carriage
return. -/
theorem blank_of_linger {draft : Draft} {chunk extended : UpdateFileChunk} {line : Text}
    {read : List Hunk × Mode} (nonempty : draft.chunks ≠ [])
    (accepted : readBetween draft line = some read)
    (diff : chunk.read (Text.stripCr line) = some extended) : read = ([], between draft) := by
  rcases readBetween_cases accepted with ⟨_, same⟩ | ⟨_, header, _⟩ | ⟨context, rfl, _⟩ | first
  · exact same
  · rw [← Text.startsWith_stripCr (by decide)] at header
    obtain ⟨rest, same⟩ := Text.startsWith_iff.mp header
    rw [← same] at diff
    cases diff
  · rw [stripCr_contextLine] at diff
    cases context <;> cases diff
  · exact absurd first.1 nonempty

theorem late_follows {draft draft' : Draft} {chunk' : UpdateFileChunk} {line : Text}
    {read : List Hunk × Mode} (resembles : draft.Resembles (draft'.push chunk'))
    (accepted : readBetween draft line = some read) :
    ∃ read', readInChunk draft' chunk' (Text.stripCr line) = some read' ∧
      StepFollows (storesBetween false line && endsInReturn line).toNat
        (between draft) (inChunk draft' chunk') read read' := by
  cases diff : chunk'.read (Text.stripCr line) with
  | none => exact leave_follows resembles accepted diff
  | some extended =>
      have nonempty := resembles.nonempty_of_push
      rw [blank_of_linger nonempty accepted diff]
      exact ⟨_, readInChunk_of_read diff, linger_follows _ resembles rfl diff⟩

theorem inChunk_follows {draft draft' : Draft} (resembles : draft.Resembles draft')
    {chunk : UpdateFileChunk} (chunk' : UpdateFileChunk) {line : Text} {read : List Hunk × Mode}
    (accepted : readInChunk draft chunk line = some read) :
    ∃ read', readInChunk draft' chunk' (Text.stripCr line) = some read' ∧
      StepFollows ((inChunk draft chunk).fragile line).toNat
        (inChunk draft chunk) (inChunk draft' chunk') read read' := by
  by_cases isEof : line = eofMarker
  · subst isEof
    cases accepted
    refine ⟨_, rfl, List.Forall₂.nil, Follows.between (resembles.push _ _), ?_⟩
    have solid : (inChunk draft chunk).fragile eofMarker = false := rfl
    rw [solid]
    simpa [volume] using outgrows_same (inChunk draft chunk).volume (inChunk draft' chunk').volume 0
  cases diff : chunk.read line with
  | some extended =>
      obtain ⟨extended', diff', ahead⟩ := @read_follows _ _ chunk' _ diff
      rw [readInChunk_of_read diff] at accepted
      cases accepted
      refine ⟨_, readInChunk_of_read diff', List.Forall₂.nil, Follows.inChunk resembles _ _, ?_⟩
      simpa [volume] using
        outgrows_draft draft.volume draft'.volume (ahead.of_le (toNat_fragile_le _ line))
  | none =>
      rw [readInChunk, if_neg isEof, diff] at accepted
      have pushed := resembles.push chunk chunk'
      have sameVolume : (inChunk draft chunk).volume = (draft.push chunk).volume := by
        simp [volume]
      cases diff' : chunk'.read (Text.stripCr line) with
      | some extended =>
          rw [blank_of_linger (by simp) accepted diff']
          exact ⟨_, readInChunk_of_read diff', linger_follows _ pushed sameVolume diff'⟩
      | none =>
          obtain ⟨read', accepted', follows⟩ := leave_follows pushed accepted diff'
          have uncut : line ≠ ['\r'] := by
            rintro rfl
            cases diff'
          have margin : (inChunk draft chunk).fragile line =
              (storesBetween false line && endsInReturn line) := by
            have notDiff := (UpdateFileChunk.read_eq_none_iff.mp diff).2
            simp [fragile, stores, cutsChunk, storesBetween, notDiff, uncut]
          refine ⟨read', accepted', follows.hunks, follows.follows, ?_⟩
          rw [margin, sameVolume]
          exact follows.outgrows

/-- One line of the second reading. -/
theorem step_follows {left right : Mode} (follows : left.Follows right) {line : Text}
    {read : List Hunk × Mode} (stepped : left.step line = some read) :
    ∃ read', right.step (Text.stripCr line) = some read' ∧
      StepFollows (left.fragile line).toNat left right read read' := by
  cases follows with
  | idle =>
      obtain ⟨empty, sameMode, sameHunks⟩ := readHeader_volume stepped
      refine ⟨read, (readHeader_stripCr line).trans stepped, sameHunks, sameMode, ?_⟩
      rw [empty]
      exact outgrows_same _ _ 0
  | adding path contents contents' =>
      by_cases plus : line.head? = some '+'
      · obtain ⟨content, rfl⟩ := List.head?_eq_some_iff.mp plus
        cases stepped
        rw [Text.stripCr_cons (by decide)]
        refine ⟨_, rfl, List.Forall₂.nil, Follows.adding _ _ _, ?_⟩
        have returned : endsInReturn ('+' :: content) = endsInReturn content :=
          @endsInReturn_append ['+'] (by decide) content
        have margin := toNat_fragile_le (adding path contents) ('+' :: content)
        rw [returned] at margin
        simpa [volume, add_assoc] using
          outgrows_text margin (0, contents.length) (0, contents'.length) 1
      · have plusAgain : (Text.stripCr line).head? ≠ some '+' := fun head =>
          plus (head?_of_stripCr head)
        have solid : (adding path contents).fragile line = false := by
          simp [fragile, stores, cutsChunk, plus]
        rw [step_adding_of_ne plus] at stepped
        rw [step_adding_of_ne plusAgain, solid]
        exact closeAndReadHeader_follows (Follows.adding path contents contents') stepped
  | fresh path =>
      cases moved : line.stripPrefix moveToMarker with
      | some dest =>
          have movedAgain : (Text.stripCr line).stripPrefix moveToMarker =
              some (Text.stripCr dest) := by
            rw [Text.stripPrefix_stripCr (by decide), moved]
            rfl
          simp only [step, moved] at stepped
          cases stepped
          refine ⟨([], .between ⟨path, some (Text.stripCr dest), []⟩), ?_, List.Forall₂.nil,
            Follows.between ⟨rfl, rfl, rfl⟩, ?_⟩
          · simp only [step, movedAgain]
          · have returned : endsInReturn line = endsInReturn dest := by
              rw [Text.stripPrefix_eq_some_iff.mp moved]
              exact endsInReturn_append (by decide) dest
            have margin := toNat_fragile_le (fresh path) line
            rw [returned] at margin
            simpa [volume, Draft.volume] using outgrows_text margin 0 0 0
      | none =>
          have movedAgain : (Text.stripCr line).stripPrefix moveToMarker = none := by
            rw [Text.stripPrefix_stripCr (by decide), moved]
            rfl
          have resembles : Draft.Resembles ⟨path, none, []⟩ ⟨path, none, []⟩ := ⟨rfl, rfl, rfl⟩
          simp only [step, moved] at stepped
          obtain ⟨read', accepted, follows⟩ := readBetween_follows resembles stepped
          refine ⟨read', by simpa only [step, movedAgain] using accepted, ?_⟩
          have margin : (fresh path).fragile line =
              (storesBetween true line && endsInReturn line) := by
            simp [fragile, stores, cutsChunk, Text.startsWith_eq_isSome, moved]
          rw [margin]
          exact ⟨follows.hunks, follows.follows, follows.outgrows⟩
  | between resembles =>
      obtain ⟨read', accepted, follows⟩ := readBetween_follows resembles stepped
      exact ⟨read', accepted, by simpa [fragile, stores, cutsChunk] using follows⟩
  | opened resembles context context' =>
      obtain ⟨read', accepted, follows⟩ := readFirst_follows resembles context' stepped
      exact ⟨read', accepted, follows.of_le (toNat_fragile_le _ line)⟩
  | inChunk resembles chunk chunk' => exact inChunk_follows resembles chunk' stepped
  | late resembles =>
      rename_i draft draft' chunk'
      have nonempty := resembles.nonempty_of_push
      obtain ⟨read', accepted, follows⟩ := late_follows resembles stepped
      refine ⟨read', accepted, ?_⟩
      simpa [fragile, stores, cutsChunk, List.isEmpty_eq_false_iff.mpr nonempty] using follows

/-- The whole second reading. -/
theorem run_follows {left right : Mode} (follows : left.Follows right) {lines : List Text}
    {hunks : List Hunk} (ran : left.run lines = some hunks) :
    ∃ hunks', right.run (lines.map Text.stripCr) = some hunks' ∧
      List.Forall₂ Hunk.Resembles hunks hunks' ∧
      Outgrows (left.fragileLines lines) left.volume (hunksVolume hunks)
        right.volume (hunksVolume hunks') := by
  induction lines generalizing left right hunks with
  | nil =>
      obtain ⟨hunks', closed, resembles⟩ := close_follows follows ran
      refine ⟨hunks', closed, resembles, ?_⟩
      rw [volume_of_close ran, volume_of_close closed]
      simpa [fragileLines] using outgrows_same left.volume right.volume 0
  | cons line rest ih =>
      rw [run_cons] at ran
      obtain ⟨⟨completed, next⟩, stepped, ran⟩ := Option.bind_eq_some_iff.mp ran
      obtain ⟨later, laterRan, rfl⟩ := Option.map_eq_some_iff.mp ran
      obtain ⟨⟨completed', next'⟩, stepped', stepFollows⟩ := step_follows follows stepped
      obtain ⟨later', laterRan', resembles, ahead⟩ := ih stepFollows.follows laterRan
      refine ⟨completed' ++ later', ?_, List.rel_append stepFollows.hunks resembles, ?_⟩
      · rw [List.map_cons, run_cons, stepped']
        simp [laterRan']
      · have stepAhead := stepFollows.outgrows
        simp only [fragileLines, stepped, hunksVolume_append]
        simp only [Outgrows, Prod.fst_add, Prod.snd_add] at stepAhead ahead ⊢
        omega

end Mode

/-! ## The stored text -/

/-- Parsing the stored text of a parsed patch succeeds and reads the same headers. -/
theorem parsePatch_stored {patch : Text} {args : ApplyPatchArgs}
    (parsed : parsePatch patch = .ok args) :
    ∃ again, parsePatch args.patch = .ok again ∧
      List.Forall₂ Hunk.Resembles args.hunks again.hunks := by
  obtain ⟨first, body, last, framed, _, stored, ran, _⟩ := parsePatch_ok parsed
  obtain ⟨hunks, ranAgain, resembles, _⟩ := Mode.run_follows Mode.Follows.idle ran
  rw [stored]
  exact ⟨_, framed.parsePatch_join.mpr ⟨hunks, ranAgain, rfl⟩, resembles⟩

/-- The stored text of a parsed patch means the same hunks exactly when no carriage return of the
patch reaches a hunk or cuts a chunk. -/
theorem parsePatch_stored_iff {patch : Text} {args : ApplyPatchArgs}
    (parsed : parsePatch patch = .ok args) :
    (∃ again, parsePatch args.patch = .ok again ∧ again.hunks = args.hunks) ↔ ReturnFree patch := by
  obtain ⟨first, body, last, framed, accepted, stored, ran, _⟩ := parsePatch_ok parsed
  have free : ReturnFree patch ↔ Mode.idle.fragileLines body = 0 := by
    simp [ReturnFree, accepted]
  rw [free, stored]
  constructor
  · rintro ⟨again, parsedAgain, same⟩
    obtain ⟨hunks, ranAgain, rfl⟩ := framed.parsePatch_join.mp parsedAgain
    obtain ⟨hunks', ran', _, ahead⟩ := Mode.run_follows Mode.Follows.idle ran
    obtain rfl : hunks = hunks' := Option.some.inj (ranAgain.symm.trans ran')
    obtain rfl : hunks = args.hunks := same
    simp only [Outgrows] at ahead
    omega
  · intro solid
    have ranAgain := Mode.run_stripCr_of_solid ran solid
    exact ⟨_, framed.parsePatch_join.mpr ⟨args.hunks, ranAgain, rfl⟩, rfl⟩

/-- An added line that ends in two carriage returns. -/
def returnedPatch : Text :=
  "*** Begin Patch\n*** Add File: a\n+x\r\r\n*** End Patch".toList

/-- An added line that ends in one carriage return. -/
def plainPatch : Text :=
  "*** Begin Patch\n*** Add File: a\n+x\r\n*** End Patch".toList

theorem parsePatch_stored_iff_plain :
    (∃ again, parsePatch "*** Begin Patch\n*** Add File: a\n+x\n*** End Patch".toList = .ok again ∧
      again.hunks = [.addFile ['a'] ['x', '\n']]) ↔ ReturnFree plainPatch :=
  @parsePatch_stored_iff plainPatch
    { patch := "*** Begin Patch\n*** Add File: a\n+x\n*** End Patch".toList
      hunks := [.addFile ['a'] ['x', '\n']]
      workdir := none } (by rfl)

/-- The second reading takes the second carriage return off the added line. -/
theorem parsePatch_stored_returned :
    ¬ ∀ patch args, parsePatch patch = .ok args →
      ∃ again, parsePatch args.patch = .ok again ∧ again.hunks = args.hunks := by
  intro stable
  obtain ⟨again, parsedAgain, same⟩ := stable returnedPatch
    { patch := "*** Begin Patch\n*** Add File: a\n+x\r\n*** End Patch".toList
      hunks := [.addFile ['a'] ['x', '\r', '\n']]
      workdir := none } (by rfl)
  have read : (parsePatch plainPatch).toOption.map (·.hunks) =
      some [.addFile ['a'] ['x', '\n']] := by decide
  have readAgain : parsePatch plainPatch = .ok again := parsedAgain
  rw [readAgain] at read
  exact absurd (same.symm.trans (Option.some.inj read)) (by decide)

end CodexPilot.ApplyPatch
