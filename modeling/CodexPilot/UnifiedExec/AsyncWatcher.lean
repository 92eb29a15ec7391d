import CodexPilot.Library.Offsets
import CodexPilot.RustStd.Utf8
import CodexPilot.UnifiedExec.HeadTailBuffer

/-!
# The output stream of a process

What is read from a process waits in a buffer.  Prefixes are taken off it until it is empty; each
goes to the transcript, and to the client as long as the call has deltas left.  A prefix is cut at
the end of a character when the buffer begins with one.
-/

namespace CodexPilot.UnifiedExec

open PrefixCodes RustStd Utf8

/-- `UNIFIED_EXEC_OUTPUT_DELTA_MAX_BYTES`. -/
def unifiedExecOutputDeltaMaxBytes : ℕ := 8192

/-- `MAX_EXEC_OUTPUT_DELTAS_PER_CALL`. -/
def maxExecOutputDeltasPerCall : ℕ := 10000

/-- `str::from_utf8` succeeds. -/
def isUtf8 (bytes : List UInt8) : Bool := (utf8.decode bytes).isOk

/-- The loop of `split_valid_utf8_prefix_with_max`, from a split downwards. -/
def searchSplit (buffer : List UInt8) (maxLen : ℕ) : ℕ → Option ℕ
  | 0 => none
  | split + 1 =>
      if isUtf8 (buffer.take (split + 1)) then some (split + 1)
      else if 4 < maxLen - (split + 1) then none
      else searchSplit buffer maxLen split

/-- `split_valid_utf8_prefix_with_max`: the prefix, and what is left of the buffer. -/
def splitValidUtf8PrefixWithMax (buffer : List UInt8) (maxBytes : ℕ) :
    Option (List UInt8 × List UInt8) :=
  if buffer = [] then none
  else
    let maxLen := min buffer.length maxBytes
    match searchSplit buffer maxLen maxLen with
    | some split => some (buffer.take split, buffer.drop split)
    | none => some (buffer.take 1, buffer.drop 1)

/-- `split_valid_utf8_prefix`. -/
def splitValidUtf8Prefix (buffer : List UInt8) : Option (List UInt8 × List UInt8) :=
  splitValidUtf8PrefixWithMax buffer unifiedExecOutputDeltaMaxBytes

/-- `ExecOutputStream`. -/
inductive ExecOutputStream where
  | stdout
  | stderr
  deriving DecidableEq

/-- `ExecCommandOutputDeltaEvent`. -/
structure ExecCommandOutputDeltaEvent where
  callId : Text
  stream : ExecOutputStream
  chunk : List UInt8

/-- The variables of the task, the transcript, the events sent, and a record of the prefixes that
were taken off the buffer. -/
structure Streaming where
  pending : List UInt8
  transcript : HeadTailBuffer
  emittedDeltas : ℕ
  events : List ExecCommandOutputDeltaEvent
  taken : List (List UInt8)

namespace Streaming

/-- The task at its start. -/
def start (transcript : HeadTailBuffer) : Streaming where
  pending := []
  transcript := transcript
  emittedDeltas := 0
  events := []
  taken := []

/-- The body of the loop of `process_chunk`. -/
def take (streaming : Streaming) (callId : Text) (front rest : List UInt8) : Streaming :=
  let streaming :=
    { streaming with
      pending := rest
      transcript := streaming.transcript.pushChunk front
      taken := streaming.taken ++ [front] }
  if maxExecOutputDeltasPerCall ≤ streaming.emittedDeltas then streaming
  else
    let event : ExecCommandOutputDeltaEvent :=
      { callId := callId, stream := .stdout, chunk := front }
    { streaming with
      events := streaming.events ++ [event]
      emittedDeltas := streaming.emittedDeltas + 1 }

end Streaming

/-! ## The splitter -/

section Splitter

variable {buffer front rest bytes : List UInt8} {maxLen maxBytes split : ℕ} {text : Text}

theorem isUtf8_iff : isUtf8 bytes = true ↔ ∃ text, bytes = utf8.encodeAll text := by
  rw [isUtf8]
  cases decoded : utf8.decode bytes with
  | ok text => exact ⟨fun _ => ⟨text, PrefixCode.decode_eq_ok_iff.mp decoded⟩, fun _ => rfl⟩
  | error failure =>
      refine ⟨fun ok => absurd ok Bool.noConfusion, ?_⟩
      rintro ⟨text, whole⟩
      cases decoded.symm.trans (PrefixCode.decode_eq_ok_iff.mpr whole)

theorem isUtf8_flatten {pieces : List (List UInt8)}
    (valid : ∀ piece ∈ pieces, isUtf8 piece = true) : isUtf8 pieces.flatten = true := by
  induction pieces with
  | nil => exact isUtf8_iff.mpr ⟨[], rfl⟩
  | cons piece pieces ih =>
      obtain ⟨text, first⟩ := isUtf8_iff.mp (valid piece List.mem_cons_self)
      obtain ⟨behind, later⟩ := isUtf8_iff.mp
        (ih fun other member => valid other (List.mem_cons_of_mem _ member))
      refine isUtf8_iff.mpr ⟨text ++ behind, ?_⟩
      rw [List.flatten_cons, first, later, PrefixCode.encodeAll_append]

theorem searchSplit_eq_some (found : searchSplit buffer maxLen maxBytes = some split) :
    0 < split ∧ split ≤ maxBytes ∧ isUtf8 (buffer.take split) = true := by
  induction maxBytes with
  | zero => cases found
  | succ place ih =>
      rw [searchSplit] at found
      split at found
      case isTrue valid =>
        cases found
        exact ⟨Nat.succ_pos place, le_rfl, valid⟩
      case isFalse =>
        split at found
        case isTrue => cases found
        case isFalse =>
          obtain ⟨positive, within, valid⟩ := ih found
          exact ⟨positive, Nat.le_succ_of_le within, valid⟩

/-- A split close to the end is found, or one behind it. -/
theorem exists_searchSplit (positive : 0 < split) (near : maxLen ≤ split + 4)
    (valid : isUtf8 (buffer.take split) = true) (within : split ≤ maxBytes) :
    ∃ found, searchSplit buffer maxLen maxBytes = some found := by
  induction maxBytes with
  | zero => omega
  | succ place ih =>
      rw [searchSplit]
      split
      case isTrue => exact ⟨place + 1, rfl⟩
      case isFalse broken =>
        have below : split ≤ place := by
          obtain below | rfl := Nat.lt_or_eq_of_le within
          · exact Nat.le_of_lt_succ below
          · exact absurd valid broken
        rw [if_neg (by omega)]
        exact ih below

theorem splitValidUtf8PrefixWithMax_eq_some
    (taken : splitValidUtf8PrefixWithMax buffer maxBytes = some (front, rest)) :
    buffer = front ++ rest ∧ front ≠ [] := by
  rw [splitValidUtf8PrefixWithMax] at taken
  split at taken
  case isTrue => cases taken
  case isFalse nonempty =>
    have long := List.length_pos_of_ne_nil nonempty
    dsimp only at taken
    split at taken
    case h_1 split found =>
      obtain ⟨positive, -, -⟩ := searchSplit_eq_some found
      cases taken
      refine ⟨(List.take_append_drop split buffer).symm, ?_⟩
      rw [← List.length_pos_iff, List.length_take]
      omega
    case h_2 =>
      cases taken
      refine ⟨(List.take_append_drop 1 buffer).symm, ?_⟩
      rw [← List.length_pos_iff, List.length_take]
      omega

/-- The bytes of a character. -/
def width (c : Char) : ℕ := (utf8.encode c).length

theorem extent_width (text : Text) : Offsets.extent width text = (utf8.encodeAll text).length := by
  rw [PrefixCode.encodeAll, List.length_flatMap]
  rfl

/-- As many characters as go into a limit leave fewer than four bytes of it. -/
theorem exists_near (text : Text) (limit : ℕ) (positive : 0 < limit)
    (fits : limit ≤ (utf8.encodeAll text).length)
    (roomy : 4 ≤ limit ∨ limit = (utf8.encodeAll text).length) :
    ∃ kept later, text = kept ++ later ∧ 0 < (utf8.encodeAll kept).length ∧
      (utf8.encodeAll kept).length ≤ limit ∧ limit ≤ (utf8.encodeAll kept).length + 4 := by
  have whole := @Offsets.front_append_back Char width text limit
  have within := @Offsets.extent_front_le Char width text limit
  have next := @Offsets.lt_extent_front_add Char width text limit
  rw [extent_width] at within next
  generalize Offsets.front width text limit = kept at whole within next
  generalize Offsets.back width text limit = later at whole next
  subst whole
  refine ⟨kept, later, rfl, ?_⟩
  rw [PrefixCode.encodeAll_append, List.length_append] at fits roomy
  cases later with
  | nil =>
      have none : (utf8.encodeAll []).length = 0 := rfl
      omega
  | cons c later =>
      have past := next rfl
      have narrow : width c ≤ 4 := length_utf8EncodeChar_le c
      rw [PrefixCode.encodeAll_cons, List.length_append] at fits roomy
      rw [width] at past narrow
      omega

/-- A buffer of whole characters is cut between two of them. -/
theorem splitValidUtf8PrefixWithMax_of_isUtf8 (valid : isUtf8 buffer = true) (enough : 4 ≤ maxBytes)
    (taken : splitValidUtf8PrefixWithMax buffer maxBytes = some (front, rest)) :
    isUtf8 front = true ∧ front.length ≤ maxBytes ∧ isUtf8 rest = true := by
  obtain ⟨text, rfl⟩ := isUtf8_iff.mp valid
  obtain ⟨pieces, -⟩ := splitValidUtf8PrefixWithMax_eq_some taken
  rw [splitValidUtf8PrefixWithMax] at taken
  split at taken
  case isTrue => cases taken
  case isFalse nonempty =>
    have long := List.length_pos_of_ne_nil nonempty
    obtain ⟨kept, later, same, positive, within, near⟩ :=
      exists_near text (min (utf8.encodeAll text).length maxBytes) (by omega) (by omega) (by omega)
    have cut : (utf8.encodeAll text).take (utf8.encodeAll kept).length = utf8.encodeAll kept := by
      rw [same, PrefixCode.encodeAll_append, List.take_left]
    obtain ⟨split, found⟩ := exists_searchSplit positive near (isUtf8_iff.mpr ⟨kept, cut⟩) within
    obtain ⟨-, small, piece⟩ := searchSplit_eq_some found
    dsimp only at taken
    rw [found] at taken
    cases taken
    refine ⟨piece, ?_, ?_⟩
    · rw [List.length_take]
      omega
    · obtain ⟨first, spelled⟩ := isUtf8_iff.mp piece
      rw [spelled] at pieces
      obtain ⟨behind, -, rest⟩ := PrefixCode.exists_of_encodeAll_append pieces.symm
      exact isUtf8_iff.mpr ⟨behind, rest⟩

end Splitter

/-! ## The loop -/

namespace Streaming

variable {streaming : Streaming} {callId : Text} {front rest : List UInt8}

theorem pending_take : (streaming.take callId front rest).pending = rest := by
  rw [take]
  split <;> rfl

theorem taken_take : (streaming.take callId front rest).taken = streaming.taken ++ [front] := by
  rw [take]
  split <;> rfl

/-- The loop of `process_chunk`. -/
def takePrefixes (streaming : Streaming) (callId : Text) : Streaming :=
  match _split : splitValidUtf8Prefix streaming.pending with
  | none => streaming
  | some (front, rest) => (streaming.take callId front rest).takePrefixes callId
termination_by streaming.pending.length
decreasing_by
  obtain ⟨whole, nonempty⟩ := splitValidUtf8PrefixWithMax_eq_some _split
  have long := List.length_pos_of_ne_nil nonempty
  rw [pending_take, whole, List.length_append]
  omega

/-- `process_chunk`. -/
def processChunk (streaming : Streaming) (callId : Text) (chunk : List UInt8) : Streaming :=
  { streaming with pending := streaming.pending ++ chunk }.takePrefixes callId

/-- The task over the chunks that it receives. -/
def run (streaming : Streaming) (callId : Text) (chunks : List (List UInt8)) : Streaming :=
  chunks.foldl (fun streaming chunk => streaming.processChunk callId chunk) streaming

/-! ## What is taken off the buffer -/

/-- The loop ends when nothing is left to take. -/
theorem takePrefixes_of_none (none : splitValidUtf8Prefix streaming.pending = none) :
    streaming.takePrefixes callId = streaming := by
  rw [takePrefixes]
  split
  case h_1 => rfl
  case h_2 found => cases none.symm.trans found

theorem takePrefixes_of_some
    (found : splitValidUtf8Prefix streaming.pending = some (front, rest)) :
    streaming.takePrefixes callId = (streaming.take callId front rest).takePrefixes callId := by
  rw [takePrefixes]
  split
  case h_1 none => cases none.symm.trans found
  case h_2 first behind again =>
    cases again.symm.trans found
    rfl

/-- What every prefix preserves is preserved by the loop. -/
theorem takePrefixes_of_take {holds : Streaming → Prop}
    (step : ∀ streaming front rest, holds streaming → holds (streaming.take callId front rest))
    (first : holds streaming) : holds (streaming.takePrefixes callId) := by
  induction size : streaming.pending.length using Nat.strongRecOn generalizing streaming with
  | _ length ih =>
      cases found : splitValidUtf8Prefix streaming.pending with
      | none =>
          rw [takePrefixes_of_none found]
          exact first
      | some pieces =>
          obtain ⟨front, rest⟩ := pieces
          obtain ⟨whole, nonempty⟩ := splitValidUtf8PrefixWithMax_eq_some found
          have long := List.length_pos_of_ne_nil nonempty
          rw [whole, List.length_append] at size
          rw [takePrefixes_of_some found]
          exact ih rest.length (by omega) (step _ _ _ first) (by rw [pending_take])

/-- A delta as it should be: whole characters, and not too many. -/
def IsDelta (chunk : List UInt8) : Prop :=
  isUtf8 chunk = true ∧ chunk.length ≤ unifiedExecOutputDeltaMaxBytes

/-- The buffer is emptied into prefixes, which are deltas when it holds whole characters. -/
theorem takePrefixes_spec (streaming : Streaming) (callId : Text) :
    ∃ pieces, (streaming.takePrefixes callId).pending = [] ∧
      (streaming.takePrefixes callId).taken = streaming.taken ++ pieces ∧
      pieces.flatten = streaming.pending ∧
      (isUtf8 streaming.pending = true → ∀ piece ∈ pieces, IsDelta piece) := by
  induction size : streaming.pending.length using Nat.strongRecOn generalizing streaming with
  | _ length ih =>
      cases found : splitValidUtf8Prefix streaming.pending with
      | none =>
          have empty : streaming.pending = [] := by
            rw [splitValidUtf8Prefix, splitValidUtf8PrefixWithMax] at found
            split at found
            case isTrue empty => exact empty
            case isFalse =>
              dsimp only at found
              split at found <;> cases found
          rw [takePrefixes_of_none found, empty]
          exact ⟨[], rfl, (List.append_nil _).symm, rfl, fun _ piece member => by cases member⟩
      | some split =>
          obtain ⟨front, rest⟩ := split
          obtain ⟨whole, nonempty⟩ := splitValidUtf8PrefixWithMax_eq_some found
          have long := List.length_pos_of_ne_nil nonempty
          have shorter : rest.length < length := by
            rw [← size, whole, List.length_append]
            omega
          obtain ⟨pieces, pending, taken, same, deltas⟩ :=
            ih rest.length shorter (streaming.take callId front rest)
              (by rw [pending_take])
          rw [pending_take] at same deltas
          rw [taken_take] at taken
          rw [takePrefixes_of_some found]
          refine ⟨front :: pieces, pending, ?_, ?_, fun valid => ?_⟩
          · rw [taken, List.append_assoc, List.singleton_append]
          · rw [List.flatten_cons, same, whole]
          · obtain ⟨piece, short, later⟩ :=
              splitValidUtf8PrefixWithMax_of_isUtf8 valid (by decide) found
            exact List.forall_mem_cons.mpr ⟨⟨piece, short⟩, deltas later⟩

/-- Over a run the prefixes spell what was read, nothing is left in the buffer, and the prefixes
are deltas exactly when every chunk holds whole characters. -/
theorem run_taken (chunks : List (List UInt8)) (callId : Text) (empty : streaming.pending = []) :
    ∃ pieces, (streaming.run callId chunks).pending = [] ∧
      (streaming.run callId chunks).taken = streaming.taken ++ pieces ∧
      pieces.flatten = chunks.flatten ∧
      ((∀ piece ∈ pieces, IsDelta piece) ↔ ∀ chunk ∈ chunks, isUtf8 chunk = true) := by
  induction chunks generalizing streaming with
  | nil => exact ⟨[], empty, (List.append_nil _).symm, rfl, by simp⟩
  | cons chunk chunks ih =>
      obtain ⟨first, pending, taken, same, deltas⟩ := takePrefixes_spec
        { streaming with pending := streaming.pending ++ chunk } callId
      obtain ⟨later, ends, takenLater, sameLater, deltasLater⟩ := ih pending
      dsimp only at same deltas
      rw [empty, List.nil_append] at same deltas
      refine ⟨first ++ later, ends, ?_, ?_, ?_⟩
      · rw [← List.append_assoc, ← taken]
        exact takenLater
      · rw [List.flatten_append, List.flatten_cons, same, sameLater]
      · rw [List.forall_mem_append, List.forall_mem_cons, deltasLater]
        refine and_congr_left fun _ => ⟨fun all => ?_, deltas⟩
        rw [← same]
        exact isUtf8_flatten fun piece member => (all piece member).1

/-! ## What is sent -/

/-- The event of a delta. -/
def deltaEvent (callId : Text) (chunk : List UInt8) : ExecCommandOutputDeltaEvent where
  callId := callId
  stream := .stdout
  chunk := chunk

/-- The transcript was given every prefix, and the client the first ones. -/
structure Reported (callId : Text) (transcript : HeadTailBuffer) (streaming : Streaming) :
    Prop where
  emitted : streaming.emittedDeltas = min streaming.taken.length maxExecOutputDeltasPerCall
  events : streaming.events =
    (streaming.taken.take maxExecOutputDeltasPerCall).map (deltaEvent callId)
  transcript : streaming.transcript = transcript.run (streaming.taken.map .push)

theorem Reported.take {transcript : HeadTailBuffer}
    (reported : Reported callId transcript streaming) (front rest : List UInt8) :
    Reported callId transcript (streaming.take callId front rest) := by
  obtain ⟨emitted, events, log⟩ := reported
  have pushed : streaming.transcript.pushChunk front =
      transcript.run ((streaming.taken ++ [front]).map .push) := by
    rw [log, List.map_append, HeadTailBuffer.run, HeadTailBuffer.run, List.foldl_append]
    rfl
  rw [Streaming.take]
  dsimp only
  split
  case isTrue full =>
    have full : maxExecOutputDeltasPerCall ≤ streaming.emittedDeltas := full
    refine ⟨?_, ?_, pushed⟩
    · dsimp only
      rw [List.length_append]
      omega
    · rw [List.take_append_of_le_length (by omega)]
      exact events
  case isFalse room =>
    have room : ¬maxExecOutputDeltasPerCall ≤ streaming.emittedDeltas := room
    have all : streaming.taken.take maxExecOutputDeltasPerCall = streaming.taken :=
      List.take_of_length_le (by omega)
    refine ⟨?_, ?_, pushed⟩
    · dsimp only
      rw [List.length_append, List.length_singleton]
      omega
    · dsimp only
      rw [List.take_of_length_le (by rw [List.length_append, List.length_singleton]; omega),
        events, all, List.map_append]
      rfl

theorem Reported.run {transcript : HeadTailBuffer}
    (reported : Reported callId transcript streaming) (chunks : List (List UInt8)) :
    Reported callId transcript (streaming.run callId chunks) := by
  induction chunks generalizing streaming with
  | nil => exact reported
  | cons chunk chunks ih =>
      have read : Reported callId transcript
          { streaming with pending := streaming.pending ++ chunk } :=
        ⟨reported.emitted, reported.events, reported.transcript⟩
      exact ih (takePrefixes_of_take (fun _ front rest holds => holds.take front rest) read)

theorem reported_start (callId : Text) (transcript : HeadTailBuffer) :
    Reported callId transcript (start transcript) where
  emitted := rfl
  events := rfl
  transcript := rfl

/-- The prefixes that `process_chunk` takes off the stream spell it, and the deltas sent are the
first of them.  They are whole characters, and not longer than a delta may be, exactly when no chunk
begins or ends inside of a character. -/
theorem deltas_iff (transcript : HeadTailBuffer) (callId : Text) (chunks : List (List UInt8)) :
    let streaming := (start transcript).run callId chunks
    streaming.events = (streaming.taken.take maxExecOutputDeltasPerCall).map (deltaEvent callId) ∧
      (((∀ piece ∈ streaming.taken, IsDelta piece) ∧
          streaming.taken.flatten ++ streaming.pending = chunks.flatten) ↔
        ∀ chunk ∈ chunks, isUtf8 chunk = true) := by
  intro streaming
  obtain ⟨pieces, pending, taken, same, deltas⟩ :=
    @run_taken (start transcript) chunks callId rfl
  refine ⟨((reported_start callId transcript).run chunks).events, ?_⟩
  have all : streaming.taken = pieces := taken
  have whole : streaming.taken.flatten ++ streaming.pending = chunks.flatten := by
    rw [all, same]
    exact (congrArg (chunks.flatten ++ ·) pending).trans (List.append_nil _)
  rw [all, deltas]
  rw [all] at whole
  exact and_iff_left whole

/-- The two bytes of a character in two reads are taken off one by one. -/
theorem deltas_split_character :
    isUtf8 [0xC3, 0xA9] = true ∧
      ¬((∀ piece ∈ ((start (HeadTailBuffer.new 8)).run [] [[0xC3], [0xA9]]).taken,
            IsDelta piece) ∧
          ((start (HeadTailBuffer.new 8)).run [] [[0xC3], [0xA9]]).taken.flatten ++
            ((start (HeadTailBuffer.new 8)).run [] [[0xC3], [0xA9]]).pending =
              [0xC3, 0xA9]) := by
  refine ⟨isUtf8_iff.mpr ⟨['é'], by decide⟩, ?_⟩
  rintro ⟨deltas, -⟩
  obtain ⟨pieces, -, taken, -, valid⟩ :=
    @run_taken (start (HeadTailBuffer.new 8)) [[0xC3], [0xA9]] [] rfl
  have all : ∀ piece ∈ pieces, IsDelta piece := fun piece member =>
    deltas piece (taken ▸ member)
  have first : isUtf8 [0xC3] = true := valid.mp all [0xC3] List.mem_cons_self
  have unfinished : utf8.Unfinished [0xC3] := ⟨'é', by decide, by decide⟩
  rw [isUtf8, PrefixCode.decode_of_unfinished (List.cons_ne_nil _ _) unfinished] at first
  cases first

end Streaming

end CodexPilot.UnifiedExec
