import CodexPilot.Library.Terminated
import CodexPilot.Library.Transitions
import CodexPilot.RustStd.Utf8
import Mathlib.Algebra.BigOperators.Group.List.Basic
import Mathlib.Algebra.Ring.Nat

/-!
# The message history file

The history is a file with an entry on every line.  An append writes a line under a lock and, when
the file has outgrown its limit, drops the oldest lines in place until it is within the soft cap, or
until the newest line alone is left.  A lookup takes the line at an offset, of the file that has the
identifier.

An offset below the count keeps its entry as long as no line is dropped; a line that is dropped
moves every other one to a smaller offset, under the same identifier.
-/

namespace CodexPilot.MessageHistory

open RustStd Terminated Transitions

/-- `HistoryEntry`. -/
structure HistoryEntry where
  sessionId : Text
  ts : ℕ
  text : Text
  deriving DecidableEq

/-- `serde_json`, for history entries. -/
structure SerdeJson where
  toString : HistoryEntry → Text
  fromStr : Text → Option HistoryEntry

/-- The file at the path: its inode and its bytes. -/
structure File where
  ino : ℕ
  bytes : List UInt8
  deriving DecidableEq

/-- `io::Error`. -/
inductive HistoryError
  | wouldBlock (message : Text)
  | invalidData (message : Text)

/-- The line feed. -/
def lineFeed : UInt8 := 10

/-- `as_bytes`. -/
def asBytes (text : Text) : List UInt8 := text.flatMap String.utf8EncodeChar

/-- `from_utf8`. -/
def fromUtf8 (bytes : List UInt8) : Option Text :=
  (ByteArray.utf8Decode? ⟨bytes.toArray⟩).map Array.toList

/-- What the calls of `read_line` give, from the start of a file to its end. -/
def readLines (bytes : List UInt8) : List (List UInt8) := Terminated.pieces lineFeed bytes

/-! ## The limit -/

/-- `as f64`: the closest number with 53 significant bits, an even one between two. -/
def asF64 (number : ℕ) : ℕ :=
  let spare := number.log2 + 1 - 53
  let kept := number / Nat.pow 2 spare
  let lost := number % Nat.pow 2 spare
  let half := Nat.pow 2 spare / 2
  if spare = 0 then number
  else if half < lost ∨ lost = half ∧ kept % 2 = 1 then (kept + 1) * Nat.pow 2 spare
  else kept * Nat.pow 2 spare

/-- `HISTORY_SOFT_CAP_RATIO` times `2 ^ 53`: the significant bits of `0.8`. -/
def historySoftCapRatio : ℕ := 7205759403792794

/-- `soft_cap_bytes` of `trim_target_bytes`. -/
def softCapBytes (maxBytes : ℕ) : ℕ :=
  min (max 1 (asF64 (asF64 maxBytes * historySoftCapRatio) / Nat.pow 2 53)) (asF64 maxBytes)

/-- `trim_target_bytes`. -/
def trimTargetBytes (maxBytes newestEntryLen : ℕ) : ℕ := max (softCapBytes maxBytes) newestEntryLen

/-- The loop of `enforce_history_limit` over the lines before the last: its `idx` at the end. -/
def linesToDrop (trimTarget : ℕ) : ℕ → List ℕ → ℕ
  | _, [] => 0
  | currentLen, lineLength :: lineLengths =>
      if trimTarget < currentLen then
        linesToDrop trimTarget (currentLen - lineLength) lineLengths + 1
      else 0

/-- `enforce_history_limit`, which leaves so many bytes in the file. -/
def enforceHistoryLimit (bytes : List UInt8) :
    Option ℕ → Except HistoryError (List UInt8)
  | none => .ok bytes
  | some maxBytes =>
      if maxBytes = 0 then .ok bytes
      else if bytes.length ≤ maxBytes then .ok bytes
      else do
        let lineLengths ← (readLines bytes).mapM fun line =>
          if (fromUtf8 line).isSome then .ok line.length
          else .error (.invalidData "stream did not contain valid UTF-8".toList)
        match lineLengths.getLast? with
        | none => .ok bytes
        | some newestEntryLen =>
            let trimTarget := trimTargetBytes maxBytes newestEntryLen
            let dropped := linesToDrop trimTarget bytes.length lineLengths.dropLast
            let dropBytes := (lineLengths.take dropped).sum
            if dropBytes = 0 then .ok bytes else .ok (bytes.drop dropBytes)

/-! ## Appending -/

/-- `HistoryPersistence`. -/
inductive HistoryPersistence
  | saveAll
  | none
  deriving DecidableEq

/-- A call of `append_entry`: its arguments, the time, whether the lock is acquired in one of the
tries, and the inode of the file if there is none yet. -/
structure Append where
  text : Text
  conversationId : Text
  ts : ℕ
  persistence : HistoryPersistence
  maxBytes : Option ℕ
  acquired : Bool
  newIno : ℕ

/-- The `entry` of `append_entry`. -/
def Append.entry (call : Append) : HistoryEntry where
  sessionId := call.conversationId
  ts := call.ts
  text := call.text

/-- The `line` of `append_entry`. -/
def Append.line (serde : SerdeJson) (call : Append) : List UInt8 :=
  asBytes (serde.toString call.entry ++ ['\n'])

/-- `append_entry`: what it leaves at the path, and what it returns. -/
def appendEntry (serde : SerdeJson) (store : Option File) (call : Append) :
    Option File × Except HistoryError Unit :=
  match call.persistence with
  | .none => (store, .ok ())
  | .saveAll =>
      let file := store.getD ⟨call.newIno, []⟩
      if call.acquired then
        let written := file.bytes ++ call.line serde
        match enforceHistoryLimit written call.maxBytes with
        | .ok kept => (some { file with bytes := kept }, .ok ())
        | .error error => (some { file with bytes := written }, .error error)
      else
        (some file, .error (.wouldBlock
          "could not acquire exclusive lock on history file after multiple attempts".toList))

/-- One call at a time: a lock is held from the write to the end. -/
def step (serde : SerdeJson) (store : Option File) (call : Append) : Option (Option File) :=
  some (appendEntry serde store call).1

/-! ## Reading -/

/-- `history_metadata`: the identifier of the file and how many line feeds it has. -/
def historyMetadata : Option File → ℕ × ℕ
  | none => (0, 0)
  | some file => (file.ino, file.bytes.count lineFeed)

/-- A line as `BufRead::lines` gives it. -/
def chomp (line : Text) : Text :=
  if line.getLast? = some '\n' then Text.stripCr line.dropLast else line

/-- The loop of `lookup_history_entry`. -/
def entryAt (serde : SerdeJson) : List (List UInt8) → ℕ → Option HistoryEntry
  | [], _ => none
  | line :: lines, offset =>
      match fromUtf8 line, offset with
      | none, _ => none
      | some text, 0 => serde.fromStr (chomp text)
      | some _, offset + 1 => entryAt serde lines offset

/-- `lookup`, which the shared lock may fail. -/
def lookup (serde : SerdeJson) (store : Option File) (acquired : Bool) (logId offset : ℕ) :
    Option HistoryEntry :=
  match store with
  | none => none
  | some file =>
      if logId ≠ 0 ∧ file.ino ≠ logId then none
      else if acquired then entryAt serde (readLines file.bytes) offset
      else none

section Offsets

variable {bytes : List UInt8}

/-! ## The soft cap -/

/-- Rounding adds at most half a unit of the last of the 53 bits. -/
theorem asF64_le (number : ℕ) : asF64 number * Nat.pow 2 53 ≤ number * (Nat.pow 2 53 + 1) := by
  unfold asF64
  dsimp only
  split
  case isTrue => exact Nat.mul_le_mul_left number (Nat.le_succ _)
  case isFalse long =>
    obtain ⟨spare, same⟩ := Nat.exists_eq_succ_of_ne_zero long
    have log : number.log2 = spare + 53 := by
      omega
    have reached : Nat.pow 2 spare * Nat.pow 2 53 ≤ number := by
      simp only [Nat.pow_eq]
      rw [← Nat.pow_add, ← log]
      exact Nat.log2_self_le fun zero => by simp [zero] at log
    have unit : Nat.pow 2 (spare + 1) = 2 * Nat.pow 2 spare := by
      simp only [Nat.pow_eq, Nat.pow_succ, Nat.mul_comm]
    rw [same, Nat.succ_eq_add_one, unit, Nat.mul_div_cancel_left _ Nat.two_pos]
    have parts := Nat.div_add_mod number (2 * Nat.pow 2 spare)
    generalize Nat.pow 2 spare = half at reached parts ⊢
    generalize Nat.pow 2 53 = scale at reached ⊢
    split
    case isTrue up =>
      have rounded : (number / (2 * half) + 1) * (2 * half) ≤ number + half := by
        rw [Nat.add_one_mul, Nat.mul_comm]
        omega
      calc
        _ ≤ (number + half) * scale := Nat.mul_le_mul_right _ rounded
        _ ≤ number * (scale + 1) := by
          rw [Nat.add_mul, Nat.mul_add, Nat.mul_one]
          omega
    case isFalse =>
      exact Nat.mul_le_mul (Nat.div_mul_le_self number _) (Nat.le_succ _)

theorem softCapBytes_le {maxBytes : ℕ} (positive : maxBytes ≠ 0) :
    softCapBytes maxBytes ≤ maxBytes := by
  have first := asF64_le maxBytes
  have second := asF64_le (asF64 maxBytes * historySoftCapRatio)
  unfold softCapBytes
  refine (Nat.min_le_left _ _).trans (max_le (Nat.pos_of_ne_zero positive) ?_)
  rw [Nat.div_le_iff_le_mul_add_pred (by decide)]
  simp only [historySoftCapRatio, Nat.pow_eq] at first second ⊢
  omega

/-! ## What the limit drops -/

@[simp]
theorem flatten_readLines : (readLines bytes).flatten = bytes := flatten_pieces

theorem ne_nil_of_mem_readLines {line : List UInt8} (member : line ∈ readLines bytes) :
    line ≠ [] := ne_nil_of_mem_pieces member

/-- The limit drops no line: there is none, the file is within it, or it has one line only.  A file
that cannot be read is left as it is. -/
def Fits (bytes : List UInt8) : Option ℕ → Prop
  | none => True
  | some maxBytes =>
      maxBytes = 0 ∨ bytes.length ≤ maxBytes ∨ (readLines bytes).length ≤ 1 ∨
        ∃ line ∈ readLines bytes, fromUtf8 line = none

instance (bytes : List UInt8) : (maxBytes : Option ℕ) → Decidable (Fits bytes maxBytes)
  | none => isTrue trivial
  | some _ => inferInstanceAs (Decidable (_ ∨ _ ∨ _ ∨ _))

theorem linesToDrop_le (trimTarget currentLen : ℕ) (lineLengths : List ℕ) :
    linesToDrop trimTarget currentLen lineLengths ≤ lineLengths.length := by
  induction lineLengths generalizing currentLen with
  | nil => exact Nat.le_refl 0
  | cons lineLength lineLengths ih =>
      rw [linesToDrop]
      split
      · exact Nat.succ_le_succ (ih _)
      · exact Nat.zero_le _

theorem linesToDrop_pos {trimTarget currentLen : ℕ} {lineLengths : List ℕ}
    (exceeds : trimTarget < currentLen) (some : lineLengths ≠ []) :
    0 < linesToDrop trimTarget currentLen lineLengths := by
  cases lineLengths with
  | nil => exact absurd rfl some
  | cons lineLength lineLengths =>
      rw [linesToDrop, if_pos exceeds]
      exact Nat.succ_pos _

theorem length_newest_lt {lines : List (List UInt8)} (some : ∀ line ∈ lines, line ≠ [])
    (several : 1 < lines.length) {newest : ℕ}
    (last : (lines.map List.length).getLast? = Option.some newest) :
    newest < lines.flatten.length := by
  obtain ⟨others, split⟩ := List.getLast?_eq_some_iff.mp last
  have total : lines.flatten.length = others.sum + newest := by
    simp [List.length_flatten, split]
  cases others with
  | nil =>
      have single := congrArg List.length split
      rw [List.length_map] at single
      exact absurd single (Nat.ne_of_gt several)
  | cons first others =>
      have member : first ∈ lines.map List.length := split ▸ List.mem_cons_self
      obtain ⟨line, inside, rfl⟩ := List.mem_map.mp member
      have positive := List.length_pos_iff.mpr (some line inside)
      rw [total, List.sum_cons]
      omega

/-- The lengths of the lines, when all of them can be read. -/
theorem mapM_lengths (lines : List (List UInt8)) :
    (lines.mapM fun line =>
      if (fromUtf8 line).isSome then (.ok line.length : Except HistoryError ℕ)
      else .error (.invalidData "stream did not contain valid UTF-8".toList)) =
    if ∃ line ∈ lines, fromUtf8 line = none then
      .error (.invalidData "stream did not contain valid UTF-8".toList)
    else .ok (lines.map List.length) := by
  induction lines with
  | nil => rfl
  | cons line lines ih =>
      rw [List.mapM_cons, ih]
      cases read : fromUtf8 line with
      | none => simp [read, bind, Except.bind]
      | some text =>
          simp only [read, Option.isSome_some, if_true, List.exists_mem_cons_iff, reduceCtorEq,
            false_or]
          split <;> rfl

/-- A file over the limit loses lines, unless it has one line only. -/
theorem linesToDrop_eq_zero_iff {maxBytes newest : ℕ} (positive : maxBytes ≠ 0)
    (exceeds : maxBytes < bytes.length)
    (last : ((readLines bytes).map List.length).getLast? = some newest) :
    linesToDrop (trimTargetBytes maxBytes newest) bytes.length
        ((readLines bytes).map List.length).dropLast = 0 ↔
      (readLines bytes).length ≤ 1 := by
  constructor
  · intro none
    refine Nat.le_of_not_lt fun several => ?_
    have newer : newest < bytes.length := by
      have shorter := length_newest_lt (fun _ => ne_nil_of_mem_readLines) several last
      rwa [flatten_readLines] at shorter
    have target : trimTargetBytes maxBytes newest < bytes.length :=
      max_lt ((softCapBytes_le positive).trans_lt exceeds) newer
    have others : ((readLines bytes).map List.length).dropLast ≠ [] := by
      apply List.ne_nil_of_length_pos
      rw [List.length_dropLast, List.length_map]
      omega
    exact absurd none (Nat.ne_of_gt (linesToDrop_pos target others))
  · intro few
    refine Nat.le_zero.mp ((linesToDrop_le _ _ _).trans ?_)
    rw [List.length_dropLast, List.length_map]
    omega

theorem sum_take_eq_zero_iff {dropped : ℕ}
    (below : dropped = 0 ∨ dropped < (readLines bytes).length) :
    (((readLines bytes).map List.length).take dropped).sum = 0 ↔ dropped = 0 := by
  refine ⟨fun nothing => ?_, fun zero => by simp [zero]⟩
  obtain zero | inside := below
  · exact zero
  · cases dropped with
    | zero => rfl
    | succ dropped =>
        obtain ⟨line, lines, cut⟩ := List.exists_cons_of_length_pos (Nat.zero_lt_of_lt inside)
        have member : line ∈ readLines bytes := cut ▸ List.mem_cons_self
        have positive := List.length_pos_iff.mpr (ne_nil_of_mem_readLines member)
        rw [cut, List.map_cons, List.take_succ_cons, List.sum_cons] at nothing
        omega

/-- What the limit leaves: all lines but the oldest, and all of them exactly when the file fits. -/
structure Limited (bytes : List UInt8) (maxBytes : Option ℕ) (kept : List UInt8) (dropped : ℕ) :
    Prop where
  lines : readLines kept = (readLines bytes).drop dropped
  newest : dropped = 0 ∨ dropped < (readLines bytes).length
  same : dropped = 0 → kept = bytes
  exactly : dropped = 0 ↔ Fits bytes maxBytes

theorem limited_of_fits {maxBytes : Option ℕ} (fits : Fits bytes maxBytes) :
    Limited bytes maxBytes bytes 0 :=
  ⟨rfl, .inl rfl, fun _ => rfl, fun _ => fits, fun _ => rfl⟩

/-- The limit drops the oldest lines, and only from a file that does not fit. -/
theorem enforceHistoryLimit_spec (bytes : List UInt8) (maxBytes : Option ℕ) :
    match enforceHistoryLimit bytes maxBytes with
    | .error _ => Fits bytes maxBytes
    | .ok kept => ∃ dropped, Limited bytes maxBytes kept dropped := by
  have unchanged (fits : Fits bytes maxBytes) : ∃ dropped, Limited bytes maxBytes bytes dropped :=
    ⟨0, limited_of_fits fits⟩
  cases maxBytes with
  | none => exact unchanged trivial
  | some maxBytes =>
      rw [enforceHistoryLimit]
      obtain zero | positive := Decidable.em (maxBytes = 0)
      · rw [if_pos zero]
        exact unchanged (.inl zero)
      rw [if_neg positive]
      obtain exceeds | within := Nat.lt_or_ge maxBytes bytes.length
      case inr =>
        rw [if_pos within]
        exact unchanged (.inr (.inl within))
      rw [if_neg (Nat.not_le.mpr exceeds), mapM_lengths]
      obtain broken | readable := Decidable.em (∃ line ∈ readLines bytes, fromUtf8 line = none)
      · rw [if_pos broken]
        exact .inr (.inr (.inr broken))
      rw [if_neg readable]
      dsimp only [bind, Except.bind]
      cases last : ((readLines bytes).map List.length).getLast? with
      | none =>
          refine unchanged (.inr (.inr (.inl ?_)))
          rw [List.getLast?_eq_none_iff, List.map_eq_nil_iff] at last
          rw [last]
          exact Nat.zero_le 1
      | some newest =>
          have fits_iff : Fits bytes (some maxBytes) ↔ (readLines bytes).length ≤ 1 := by
            refine ⟨fun fits => ?_, fun few => .inr (.inr (.inl few))⟩
            obtain zero | within | few | broken := fits
            · exact absurd zero positive
            · exact absurd within (Nat.not_le.mpr exceeds)
            · exact few
            · exact absurd broken readable
          have drops := linesToDrop_eq_zero_iff positive exceeds last
          have bound := linesToDrop_le (trimTargetBytes maxBytes newest) bytes.length
            ((readLines bytes).map List.length).dropLast
          rw [List.length_dropLast, List.length_map] at bound
          dsimp only
          generalize linesToDrop (trimTargetBytes maxBytes newest) bytes.length
            ((readLines bytes).map List.length).dropLast = dropped at drops bound ⊢
          have below : dropped = 0 ∨ dropped < (readLines bytes).length := by
            omega
          obtain zero | some := Decidable.em (dropped = 0)
          · rw [if_pos ((sum_take_eq_zero_iff below).mpr zero)]
            exact unchanged (fits_iff.mpr (drops.mp zero))
          · rw [if_neg (mt (sum_take_eq_zero_iff below).mp some)]
            have kept : bytes.drop (((readLines bytes).map List.length).take dropped).sum =
                ((readLines bytes).drop dropped).flatten := by
              have parts := List.drop_sum_flatten (readLines bytes) dropped
              rwa [flatten_readLines] at parts
            refine ⟨dropped, ?_, below, fun zero => absurd zero some, drops.trans fits_iff.symm⟩
            rw [kept]
            exact pieces_flatten_drop dropped

/-! ## Runs -/

section Runs

variable {serde : SerdeJson} {store next final : Option File} {file : File} {call : Append}
  {calls : List Append} {logId count offset : ℕ}

/-- The lines at the path and the one to be written are not too many for the limit of the call. -/
def KeepsEveryLine (serde : SerdeJson) (store : Option File) (call : Append) : Prop :=
  call.persistence = .saveAll → call.acquired = true →
    Fits (store.elim [] File.bytes ++ call.line serde) call.maxBytes

instance (serde : SerdeJson) (store : Option File) (call : Append) :
    Decidable (KeepsEveryLine serde store call) :=
  inferInstanceAs (Decidable (_ → _ → _))

/-- An append leaves the file where it is, with all its bytes and perhaps more, unless it drops
lines. -/
theorem appendEntry_kept (keeps : KeepsEveryLine serde (some file) call) :
    ∃ more, (appendEntry serde (some file) call).1 = some ⟨file.ino, file.bytes ++ more⟩ := by
  unfold appendEntry
  cases persistence : call.persistence with
  | none => exact ⟨[], by simp⟩
  | saveAll =>
      cases acquired : call.acquired with
      | false => exact ⟨[], by simp⟩
      | true =>
          have fits := keeps persistence acquired
          have spec := enforceHistoryLimit_spec (file.bytes ++ call.line serde) call.maxBytes
          refine ⟨call.line serde, ?_⟩
          simp only [Option.getD_some, if_true]
          cases limited : enforceHistoryLimit (file.bytes ++ call.line serde) call.maxBytes with
          | error error => rfl
          | ok kept =>
              rw [limited] at spec
              obtain ⟨dropped, left⟩ := spec
              exact congrArg (fun bytes => some (File.mk file.ino bytes))
                (left.same (left.exactly.mpr fits))

/-- The entry at an offset is told by the lines up to it. -/
theorem entryAt_congr {lines others : List (List UInt8)}
    (same : lines.take count = others.take count) (below : offset < count) :
    entryAt serde lines offset = entryAt serde others offset := by
  induction offset generalizing lines others count with
  | zero =>
      obtain ⟨count, rfl⟩ := Nat.exists_eq_succ_of_ne_zero (Nat.ne_of_gt below)
      cases lines with
      | nil =>
          cases others with
          | nil => rfl
          | cons other others => cases same
      | cons line lines =>
          cases others with
          | nil => cases same
          | cons other others =>
              obtain ⟨rfl, -⟩ := List.cons.inj same
              cases read : fromUtf8 line <;> simp only [entryAt, read]
  | succ offset ih =>
      obtain ⟨count, rfl⟩ := Nat.exists_eq_succ_of_ne_zero (Nat.ne_of_gt (Nat.zero_lt_of_lt below))
      cases lines with
      | nil =>
          cases others with
          | nil => rfl
          | cons other others => cases same
      | cons line lines =>
          cases others with
          | nil => cases same
          | cons other others =>
              obtain ⟨rfl, later⟩ := List.cons.inj same
              have rest := ih later (Nat.lt_of_succ_lt_succ below)
              cases read : fromUtf8 line with
              | none => simp only [entryAt, read]
              | some text => simpa only [entryAt, read] using rest

/-- In every run whose appends drop no line, an offset below the count denotes its entry, or a
lookup finds nothing. -/
theorem offset_kept_of_run (read : historyMetadata store = (logId, count)) (below : offset < count)
    (ran : run (step serde) store calls = some final)
    (along : Along (step serde) (KeepsEveryLine serde) store calls) (acquired : Bool)
    {entry : HistoryEntry} (found : lookup serde final acquired logId offset = some entry) :
    lookup serde store true logId offset = some entry := by
  cases store with
  | none =>
      cases read
      exact absurd below (Nat.not_lt_zero offset)
  | some file =>
      obtain ⟨rfl, rfl⟩ := Prod.mk.inj read
      have kept : ∀ state call next,
          (∃ more, state = some ⟨file.ino, file.bytes ++ more⟩) →
          KeepsEveryLine serde state call → step serde state call = some next →
          ∃ more, next = some ⟨file.ino, file.bytes ++ more⟩ := by
        rintro _ call next ⟨more, rfl⟩ keeps stepped
        obtain ⟨line, left⟩ := appendEntry_kept keeps
        refine ⟨more ++ line, ?_⟩
        rw [← Option.some.inj stepped, left, List.append_assoc]
      have held := invariant_of_run kept ⟨[], by simp⟩ along ran
      obtain ⟨more, rfl⟩ := held
      have same : entryAt serde (readLines (file.bytes ++ more)) offset =
          entryAt serde (readLines file.bytes) offset :=
        entryAt_congr take_pieces_append below
      cases acquired with
      | false => simp [lookup] at found
      | true => simpa [lookup, same] using found

theorem entryAt_drop {lines : List (List UInt8)} {dropped : ℕ}
    (readable : ∀ line ∈ lines, fromUtf8 line ≠ none) :
    entryAt serde (lines.drop dropped) offset = entryAt serde lines (offset + dropped) := by
  induction dropped generalizing lines with
  | zero => rfl
  | succ dropped ih =>
      cases lines with
      | nil => rfl
      | cons line lines =>
          obtain ⟨text, read⟩ := Option.ne_none_iff_exists'.mp (readable line List.mem_cons_self)
          rw [List.drop_succ_cons, ih fun later member =>
            readable later (List.mem_cons_of_mem line member)]
          simp only [← Nat.add_assoc, entryAt, read]

/-- An append that drops lines moves every entry by as many offsets, under the same identifier. -/
theorem lookup_appendEntry (saves : call.persistence = .saveAll) (acquires : call.acquired = true) :
    ∃ dropped, (dropped = 0 ↔ Fits (file.bytes ++ call.line serde) call.maxBytes) ∧
      ∀ offset, lookup serde (appendEntry serde (some file) call).1 true file.ino offset =
        entryAt serde (readLines (file.bytes ++ call.line serde)) (offset + dropped) := by
  have spec := enforceHistoryLimit_spec (file.bytes ++ call.line serde) call.maxBytes
  unfold appendEntry
  simp only [saves, acquires, Option.getD_some, if_true]
  cases limited : enforceHistoryLimit (file.bytes ++ call.line serde) call.maxBytes with
  | error error =>
      rw [limited] at spec
      exact ⟨0, ⟨fun _ => spec, fun _ => rfl⟩, fun offset => by simp [lookup]⟩
  | ok kept =>
      rw [limited] at spec
      obtain ⟨dropped, left⟩ := spec
      refine ⟨dropped, left.exactly, fun offset => ?_⟩
      simp only [lookup, ne_eq, not_true_eq_false, and_false, if_false, if_true]
      obtain rfl | some := Decidable.em (dropped = 0)
      · rw [left.same rfl, Nat.add_zero]
      · rw [left.lines]
        refine entryAt_drop fun line member unread => some (left.exactly.mpr ?_)
        cases call.maxBytes with
        | none => trivial
        | some maxBytes => exact .inr (.inr (.inr ⟨line, member, unread⟩))

end Runs

/-! ## A trim -/

section Trim

/-- An entry whose text needs no escapes. -/
def plainEntry (text : String) : HistoryEntry := ⟨"t".toList, 1, text.toList⟩

/-- `serde_json` on three such entries. -/
def plainJson : SerdeJson where
  toString := plainToString
  fromStr text :=
    [plainEntry "a", plainEntry "b", plainEntry "c"].find? fun entry => plainToString entry = text
where
  plainToString (entry : HistoryEntry) : Text :=
    "\x7b\"session_id\":\"".toList ++ entry.sessionId ++ "\",\"ts\":".toList ++
      (toString entry.ts).toList ++ ",\"text\":\"".toList ++ entry.text ++ "\"\x7d".toList

/-- A call that gets the lock. -/
def plainAppend (text : String) (maxBytes : Option ℕ) : Append :=
  ⟨text.toList, "t".toList, 1, .saveAll, maxBytes, true, 7⟩

/-- A file with two entries of 37 bytes. -/
def twoEntries : Option File :=
  some ⟨7, (plainAppend "a" none).line plainJson ++ (plainAppend "b" none).line plainJson⟩

/-- Within a limit of 120 bytes, the second entry is found at its offset after a third. -/
theorem offset_kept_of_roomy :
    historyMetadata twoEntries = (7, 2) ∧
      ∃ final, run (step plainJson) twoEntries [plainAppend "c" (some 120)] = some final ∧
        lookup plainJson final true 7 1 = some (plainEntry "b") ∧
        lookup plainJson twoEntries true 7 1 = some (plainEntry "b") := by
  have read : historyMetadata twoEntries = (7, 2) := by
    decide +kernel
  have found : lookup plainJson (appendEntry plainJson twoEntries (plainAppend "c" (some 120))).1
      true 7 1 = some (plainEntry "b") := by
    decide +kernel
  have along : Along (step plainJson) (KeepsEveryLine plainJson) twoEntries
      [plainAppend "c" (some 120)] := by
    decide +kernel
  refine ⟨read, _, rfl, found, ?_⟩
  exact offset_kept_of_run read (by decide) rfl along true found

/-- With a limit of 100 bytes the offsets move. -/
theorem lookup_appendEntry_trimmed :
    ∃ file, twoEntries = some file ∧ ∃ dropped, dropped ≠ 0 ∧ ∀ offset,
      lookup plainJson (appendEntry plainJson twoEntries (plainAppend "c" (some 100))).1 true 7
          offset =
        entryAt plainJson
          (readLines (file.bytes ++ (plainAppend "c" (some 100)).line plainJson))
          (offset + dropped) := by
  refine ⟨_, rfl, (lookup_appendEntry rfl rfl).imp fun dropped moved => ⟨?_, moved.2⟩⟩
  rw [ne_eq, moved.1]
  decide +kernel

/-- A limit of 100 bytes drops the first entry, and the second is found in its place. -/
theorem offset_moved_by_trim :
    run (step plainJson) none [plainAppend "a" none, plainAppend "b" none] = some twoEntries ∧
      historyMetadata twoEntries = (7, 2) ∧
      lookup plainJson twoEntries true 7 0 = some (plainEntry "a") ∧
      ∃ final, run (step plainJson) twoEntries [plainAppend "c" (some 100)] = some final ∧
        lookup plainJson final true 7 0 = some (plainEntry "b") := by
  refine ⟨?_, ?_, ?_, _, rfl, ?_⟩ <;> decide +kernel

end Trim

end Offsets

/-! ## Whole lines -/

/-- The text in front of the line feed that ends a line. -/
structure HistoryLine where
  text : Text
  noNewline : '\n' ∉ text

namespace HistoryLine

/-- The bytes of a line, with its line feed. -/
def bytes (line : HistoryLine) : List UInt8 := asBytes (line.text ++ ['\n'])

/-- The bytes of some lines, one behind the other. -/
def allBytes (lines : List HistoryLine) : List UInt8 := lines.flatMap bytes

end HistoryLine

/-- The line feed is no part of another character. -/
theorem lineFeed_mem_utf8EncodeChar {c : Char} (member : lineFeed ∈ String.utf8EncodeChar c) :
    c = '\n' := by
  have value : lineFeed.toNat = 10 := rfl
  have spells := Utf8.spells_utf8EncodeChar c
  generalize String.utf8EncodeChar c = letters at member spells
  cases spells with
  | one a small first =>
      obtain rfl := List.mem_singleton.mp member
      exact Char.toNat_inj.mp (first.symm.trans value)
  | two | three | four =>
      -- every byte of a longer sequence is 0x80 or more
      simp only [List.mem_cons, List.not_mem_nil, or_false] at member
      grind

theorem fromUtf8_asBytes (text : Text) : fromUtf8 (asBytes text) = some text := by
  have same : (⟨(asBytes text).toArray⟩ : ByteArray) = text.utf8Encode := by
    apply ByteArray.ext
    simp [List.utf8Encode, asBytes]
  rw [fromUtf8, same, List.utf8Decode?_utf8Encode]
  rfl

theorem HistoryLine.bytes_eq (line : HistoryLine) :
    line.bytes = asBytes line.text ++ [lineFeed] := by
  rw [bytes, asBytes, List.flatMap_append]
  rfl

theorem HistoryLine.lineFeed_notMem (line : HistoryLine) : lineFeed ∉ asBytes line.text := by
  intro member
  obtain ⟨c, among, inside⟩ := List.mem_flatMap.mp member
  exact line.noNewline (lineFeed_mem_utf8EncodeChar inside ▸ among)

/-- The lines of a file are those that were written to it. -/
theorem readLines_allBytes (lines : List HistoryLine) :
    readLines (HistoryLine.allBytes lines) = lines.map HistoryLine.bytes := by
  induction lines with
  | nil => rfl
  | cons line lines ih =>
      rw [HistoryLine.allBytes, List.flatMap_cons, List.map_cons, line.bytes_eq, List.append_assoc]
      rw [List.singleton_append, readLines, pieces_append_mark line.lineFeed_notMem]
      exact congrArg _ ih

theorem readable_allBytes (lines : List HistoryLine) :
    ¬∃ line ∈ readLines (HistoryLine.allBytes lines), fromUtf8 line = none := by
  rw [readLines_allBytes]
  rintro ⟨bytes, member, unread⟩
  obtain ⟨line, -, rfl⟩ := List.mem_map.mp member
  rw [HistoryLine.bytes, fromUtf8_asBytes] at unread
  cases unread

/-! ## The limit with any soft cap -/

/-- `enforce_history_limit`, where `trim_target_bytes` has the given `soft_cap_bytes`. -/
def enforceSoftCap (softCap maxBytes : ℕ) (bytes : List UInt8) : Except HistoryError (List UInt8) :=
  if maxBytes = 0 then .ok bytes
  else if bytes.length ≤ maxBytes then .ok bytes
  else do
    let lineLengths ← (readLines bytes).mapM fun line =>
      if (fromUtf8 line).isSome then .ok line.length
      else .error (.invalidData "stream did not contain valid UTF-8".toList)
    match lineLengths.getLast? with
    | none => .ok bytes
    | some newestEntryLen =>
        let trimTarget := max softCap newestEntryLen
        let dropped := linesToDrop trimTarget bytes.length lineLengths.dropLast
        let dropBytes := (lineLengths.take dropped).sum
        if dropBytes = 0 then .ok bytes else .ok (bytes.drop dropBytes)

/-- The loop ends within the target, or with no line left but the newest. -/
theorem linesToDrop_within {trimTarget newest : ℕ} (fits : newest ≤ trimTarget) (lengths : List ℕ) :
    (lengths.drop (linesToDrop trimTarget (lengths.sum + newest) lengths)).sum + newest ≤
      trimTarget := by
  induction lengths with
  | nil => simpa [linesToDrop] using fits
  | cons length lengths ih =>
      rw [linesToDrop, List.sum_cons]
      split
      case isTrue =>
        have rest : length + lengths.sum + newest - length = lengths.sum + newest := by omega
        rw [rest, List.drop_succ_cons]
        exact ih
      case isFalse within =>
        rw [List.drop_zero, List.sum_cons]
        omega

section Trim

variable {softCap maxBytes : ℕ}

theorem length_allBytes (lines : List HistoryLine) :
    (HistoryLine.allBytes lines).length = (lines.map fun line => line.bytes.length).sum := by
  rw [HistoryLine.allBytes, List.length_flatMap]

/-- The bytes of the dropped lines are those in front of the others. -/
theorem drop_allBytes (lines : List HistoryLine) (dropped : ℕ) :
    (HistoryLine.allBytes lines).drop
        ((lines.map fun line => line.bytes.length).take dropped).sum =
      HistoryLine.allBytes (lines.drop dropped) := by
  have parts := List.drop_sum_flatten (lines.map HistoryLine.bytes) dropped
  rw [← List.flatMap_def, List.map_map, ← List.map_drop, ← List.flatMap_def] at parts
  exact parts

/-- What the limit leaves of some lines is the newest of them, within the limit unless the newest
line alone is longer; it drops none while all of them are within the limit. -/
theorem enforceSoftCap_allBytes (positive : maxBytes ≠ 0) (capped : softCap ≤ maxBytes)
    (lines : List HistoryLine) (newest : HistoryLine) :
    ∃ dropped ≤ lines.length,
      enforceSoftCap softCap maxBytes (HistoryLine.allBytes (lines ++ [newest])) =
          .ok (HistoryLine.allBytes ((lines ++ [newest]).drop dropped)) ∧
        (HistoryLine.allBytes ((lines ++ [newest]).drop dropped)).length ≤
          max maxBytes newest.bytes.length ∧
        ((HistoryLine.allBytes (lines ++ [newest])).length ≤ maxBytes → dropped = 0) := by
  rw [enforceSoftCap, if_neg positive]
  obtain exceeds | within :=
    Nat.lt_or_ge maxBytes (HistoryLine.allBytes (lines ++ [newest])).length
  case inr =>
    rw [if_pos within]
    exact ⟨0, Nat.zero_le _, rfl, within.trans (le_max_left _ _), fun _ => rfl⟩
  rw [if_neg (Nat.not_le.mpr exceeds), mapM_lengths, if_neg (readable_allBytes _)]
  have lengths : (readLines (HistoryLine.allBytes (lines ++ [newest]))).map List.length =
      (lines.map fun line => line.bytes.length) ++ [newest.bytes.length] := by
    rw [readLines_allBytes, List.map_map, List.map_append]
    rfl
  have total : (HistoryLine.allBytes (lines ++ [newest])).length =
      (lines.map fun line => line.bytes.length).sum + newest.bytes.length := by
    simp [length_allBytes]
  dsimp only [bind, Except.bind]
  rw [lengths, List.getLast?_concat, List.dropLast_concat]
  dsimp only
  have few := linesToDrop_le (max softCap newest.bytes.length)
    (HistoryLine.allBytes (lines ++ [newest])).length (lines.map fun line => line.bytes.length)
  have short := linesToDrop_within (le_max_right softCap newest.bytes.length)
    (lines.map fun line => line.bytes.length)
  rw [← total] at short
  rw [List.length_map] at few
  generalize linesToDrop (max softCap newest.bytes.length)
    (HistoryLine.allBytes (lines ++ [newest])).length
    (lines.map fun line => line.bytes.length) = dropped at few short ⊢
  have cut := drop_allBytes (lines ++ [newest]) dropped
  rw [List.map_append, List.map_singleton] at cut
  refine ⟨dropped, few, ?_, ?_, fun within => absurd within (Nat.not_le.mpr exceeds)⟩
  · split
    case isTrue nothing =>
      rw [nothing, List.drop_zero] at cut
      rw [← cut]
    case isFalse => rw [cut]
  · rw [length_allBytes, List.drop_append_of_le_length few, List.map_append, List.sum_append,
      List.map_drop, List.map_singleton, List.sum_singleton]
    omega

/-! ## Appends -/

/-- Append a line and enforce the limit. -/
def appendLine (softCap maxBytes : ℕ) (bytes : List UInt8) (line : HistoryLine) :
    Except HistoryError (List UInt8) :=
  enforceSoftCap softCap maxBytes (bytes ++ line.bytes)

/-- Append the lines to an empty file, one after the other. -/
def appendLines (softCap maxBytes : ℕ) (lines : List HistoryLine) :
    Except HistoryError (List UInt8) :=
  lines.foldlM (appendLine softCap maxBytes) []

theorem appendLines_concat (lines : List HistoryLine) (newest : HistoryLine) :
    appendLines softCap maxBytes (lines ++ [newest]) =
      (appendLines softCap maxBytes lines).bind fun bytes =>
        appendLine softCap maxBytes bytes newest := by
  rw [appendLines, List.foldlM_append]
  cases appended : lines.foldlM (appendLine softCap maxBytes) [] with
  | error error => simp [appendLines, appended, bind, Except.bind]
  | ok bytes =>
      simp only [appendLines, appended, bind, Except.bind, List.foldlM_cons, List.foldlM_nil, pure,
        Except.pure]
      cases appendLine softCap maxBytes bytes newest <;> rfl

/-- After any number of appends the file holds the newest lines. -/
theorem appendLines_eq_ok (positive : maxBytes ≠ 0) (capped : softCap ≤ maxBytes)
    (lines : List HistoryLine) :
    ∃ dropped ≤ lines.length,
      appendLines softCap maxBytes lines = .ok (HistoryLine.allBytes (lines.drop dropped)) := by
  induction lines using List.reverseRecOn with
  | nil => exact ⟨0, le_rfl, rfl⟩
  | append_singleton lines newest ih =>
      obtain ⟨gone, few, appended⟩ := ih
      obtain ⟨dropped, fewer, left, -⟩ :=
        enforceSoftCap_allBytes positive capped (lines.drop gone) newest
      rw [List.length_drop] at fewer
      refine ⟨gone + dropped, ?_, ?_⟩
      · rw [List.length_append]
        omega
      · have whole : HistoryLine.allBytes (lines.drop gone) ++ newest.bytes =
            HistoryLine.allBytes (lines.drop gone ++ [newest]) := by
          simp [HistoryLine.allBytes]
        rw [appendLines_concat, appended]
        dsimp only [Except.bind]
        rw [appendLine, whole, left, ← List.drop_append_of_le_length few, List.drop_drop]

/-- After every append the file is a suffix, at the end of a line, of all lines appended so far.  It
has the newest line in full, and no more bytes than the limit and the newest line allow.  Lines are
dropped only where the file with the newest line exceeds the limit. -/
theorem appendLines_keeps_newest (lower : 1 ≤ softCap) (upper : softCap ≤ maxBytes)
    (lines : List HistoryLine) (newest : HistoryLine) :
    ∃ before dropped, appendLines softCap maxBytes lines = .ok before ∧ dropped ≤ lines.length ∧
      appendLines softCap maxBytes (lines ++ [newest]) =
          .ok (HistoryLine.allBytes (lines.drop dropped ++ [newest])) ∧
      (HistoryLine.allBytes (lines.drop dropped ++ [newest])).length ≤
          max maxBytes newest.bytes.length ∧
      ((before ++ newest.bytes).length ≤ maxBytes →
        HistoryLine.allBytes (lines.drop dropped ++ [newest]) = before ++ newest.bytes) := by
  have positive : maxBytes ≠ 0 := by omega
  obtain ⟨gone, few, appended⟩ := appendLines_eq_ok positive upper lines
  obtain ⟨dropped, fewer, left, short, untouched⟩ :=
    enforceSoftCap_allBytes positive upper (lines.drop gone) newest
  have whole : HistoryLine.allBytes (lines.drop gone) ++ newest.bytes =
      HistoryLine.allBytes (lines.drop gone ++ [newest]) := by
    simp [HistoryLine.allBytes]
  rw [List.drop_append_of_le_length fewer, List.drop_drop] at left short
  refine ⟨_, gone + dropped, appended, ?_, ?_, short, fun within => ?_⟩
  · rw [List.length_drop] at fewer
    omega
  · rw [appendLines_concat, appended]
    dsimp only [Except.bind]
    rw [appendLine, whole, left]
  · rw [whole] at within
    rw [untouched within, Nat.add_zero, whole]

end Trim

/-- With a limit of four bytes and a soft cap of three, the third line leaves the last two. -/
theorem appendLines_keeps_newest_short :
    ∃ before dropped, dropped ≤ 2 ∧
      appendLines 3 4 [⟨['a'], by decide⟩, ⟨[], by decide⟩] = .ok before ∧
      appendLines 3 4 [⟨['a'], by decide⟩, ⟨[], by decide⟩, ⟨['b'], by decide⟩] =
        .ok (HistoryLine.allBytes
          (([⟨['a'], by decide⟩, ⟨[], by decide⟩] : List HistoryLine).drop dropped ++
            [⟨['b'], by decide⟩])) := by
  obtain ⟨before, dropped, first, few, left, -⟩ :=
    appendLines_keeps_newest (show 1 ≤ 3 by decide) (show 3 ≤ 4 by decide)
      [⟨['a'], by decide⟩, ⟨[], by decide⟩] ⟨['b'], by decide⟩
  exact ⟨before, dropped, few, first, left⟩

/-! ## The soft cap of the code -/

/-- Rounding leaves something of a number that is not zero. -/
theorem one_le_asF64 {number : ℕ} (positive : number ≠ 0) : 1 ≤ asF64 number := by
  unfold asF64
  dsimp only
  split
  case isTrue => exact Nat.pos_of_ne_zero positive
  case isFalse long =>
    have reached : Nat.pow 2 (number.log2 + 1 - 53) ≤ number := by
      refine le_trans ?_ (Nat.log2_self_le positive)
      exact Nat.pow_le_pow_right Nat.two_pos (by omega)
    have unit : 0 < Nat.pow 2 (number.log2 + 1 - 53) := Nat.pow_pos Nat.two_pos
    have kept : 0 < number / Nat.pow 2 (number.log2 + 1 - 53) := Nat.div_pos reached unit
    split
    case isTrue => exact Nat.mul_pos (Nat.succ_pos _) unit
    case isFalse => exact Nat.mul_pos kept unit

/-- The soft cap of `trim_target_bytes` is one of those above. -/
theorem one_le_softCapBytes {maxBytes : ℕ} (positive : maxBytes ≠ 0) : 1 ≤ softCapBytes maxBytes :=
  le_min (le_max_left 1 _) (one_le_asF64 positive)

/-- A call of `append_entry` that gets the lock appends its line and enforces the limit. -/
theorem appendEntry_eq_appendLine {serde : SerdeJson} {file : File} {call : Append} {maxBytes : ℕ}
    {line : HistoryLine} (saves : call.persistence = .saveAll) (acquires : call.acquired = true)
    (limit : call.maxBytes = some maxBytes) (same : call.line serde = line.bytes) :
    appendEntry serde (some file) call =
      match appendLine (softCapBytes maxBytes) maxBytes file.bytes line with
      | .ok kept => (some { file with bytes := kept }, .ok ())
      | .error error => (some { file with bytes := file.bytes ++ line.bytes }, .error error) := by
  rw [appendEntry, saves]
  simp only [acquires, limit, same, Option.getD_some, if_true]
  rfl

end CodexPilot.MessageHistory
