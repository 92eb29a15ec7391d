import CodexPilot.ApplyPatch.Parser

/-!
# The patch grammar as a line machine

The parser consumes lines in three nested loops that hand line counts to each other.  The machine
below reads the same patches one line at a time.  `parseHunks_toOption` shows that the two accept
the same lines and read the same hunks, so that later results argue about one line at a time.
-/

namespace CodexPilot.ApplyPatch

open RustStd

/-- An updated file whose chunks are still being read. -/
structure Draft where
  path : PathBuf
  movePath : Option PathBuf
  chunks : List UpdateFileChunk

namespace Draft

/-- Append a chunk. -/
def push (draft : Draft) (chunk : UpdateFileChunk) : Draft :=
  { draft with chunks := draft.chunks ++ [chunk] }

def hunk (draft : Draft) : Hunk := .updateFile draft.path draft.movePath draft.chunks

@[simp]
theorem push_chunks (draft : Draft) (chunk : UpdateFileChunk) :
    (draft.push chunk).chunks = draft.chunks ++ [chunk] := rfl

end Draft

/-- What the machine is in the middle of. -/
inductive Mode where
  /-- Between two hunks. -/
  | idle
  /-- Inside the `+` lines of an added file. -/
  | adding (path : PathBuf) (contents : Text)
  /-- Right after the header of an updated file. -/
  | fresh (path : PathBuf)
  /-- Between two chunks of an updated file. -/
  | between (draft : Draft)
  /-- After a context marker, before any diff line. -/
  | opened (draft : Draft) (context : Option Text)
  /-- Inside a chunk that has at least one diff line. -/
  | inChunk (draft : Draft) (chunk : UpdateFileChunk)

/-- A chunk without diff lines. -/
def emptyChunk (context : Option Text) : UpdateFileChunk :=
  { changeContext := context, oldLines := [], newLines := [], isEndOfFile := false }

/-- First line of a chunk. -/
def contextLine : Option Text → Text
  | none => emptyChangeContextMarker
  | some context => changeContextMarker ++ context

/-- Add a diff line to a chunk, when the line is one. -/
def UpdateFileChunk.read (chunk : UpdateFileChunk) : Text → Option UpdateFileChunk
  | [] =>
      some
        { chunk with oldLines := chunk.oldLines ++ [[]], newLines := chunk.newLines ++ [[]] }
  | ' ' :: content =>
      some
        { chunk with
          oldLines := chunk.oldLines ++ [content]
          newLines := chunk.newLines ++ [content] }
  | '+' :: content => some { chunk with newLines := chunk.newLines ++ [content] }
  | '-' :: content => some { chunk with oldLines := chunk.oldLines ++ [content] }
  | _ => none

namespace Mode

/-- The hunk completed by the end of the input, or by the next header. -/
def close : Mode → Option (List Hunk)
  | .idle => some []
  | .adding path contents => some [.addFile path contents]
  | .fresh _ => none
  | .between draft => if draft.chunks = [] then none else some [draft.hunk]
  | .opened _ _ => none
  | .inChunk draft chunk => some [(draft.push chunk).hunk]

/-- Read a hunk header. -/
def readHeader (line : Text) : Option (List Hunk × Mode) :=
  match line.trim.stripPrefix addFileMarker with
  | some path => some ([], .adding path [])
  | none =>
      match line.trim.stripPrefix deleteFileMarker with
      | some path => some ([.deleteFile path], .idle)
      | none => (line.trim.stripPrefix updateFileMarker).map fun path => ([], .fresh path)

/-- Complete the current hunk and read the header of the next one. -/
def closeAndReadHeader (mode : Mode) (line : Text) : Option (List Hunk × Mode) := do
  let completed ← mode.close
  let (hunks, next) ← readHeader line
  some (completed ++ hunks, next)

/-- Read the first diff line of a chunk. -/
def readFirst (draft : Draft) (context : Option Text) (line : Text) : Option (List Hunk × Mode) :=
  if line = eofMarker then none
  else ((emptyChunk context).read line).map fun chunk => ([], .inChunk draft chunk)

/-- Read a line between two chunks. -/
def readBetween (draft : Draft) (line : Text) : Option (List Hunk × Mode) :=
  if line.trim = [] then some ([], .between draft)
  else if line.startsWith headerStart = true then closeAndReadHeader (.between draft) line
  else if line = emptyChangeContextMarker then some ([], .opened draft none)
  else
    match line.stripPrefix changeContextMarker with
    | some context => some ([], .opened draft (some context))
    | none => if draft.chunks = [] then readFirst draft none line else none

/-- Read a line inside a chunk. -/
def readInChunk (draft : Draft) (chunk : UpdateFileChunk) (line : Text) :
    Option (List Hunk × Mode) :=
  if line = eofMarker then
    some ([], .between (draft.push { chunk with isEndOfFile := true }))
  else
    match chunk.read line with
    | some extended => some ([], .inChunk draft extended)
    | none => readBetween (draft.push chunk) line

/-- Read one line: the hunks it completes and the next mode. -/
def step : Mode → Text → Option (List Hunk × Mode)
  | .idle, line => readHeader line
  | .adding path contents, '+' :: content =>
      some ([], .adding path (contents ++ content ++ ['\n']))
  | .adding path contents, line => closeAndReadHeader (.adding path contents) line
  | .fresh path, line =>
      match line.stripPrefix moveToMarker with
      | some dest => some ([], .between ⟨path, some dest, []⟩)
      | none => readBetween ⟨path, none, []⟩ line
  | .between draft, line => readBetween draft line
  | .opened draft context, line => readFirst draft context line
  | .inChunk draft chunk, line => readInChunk draft chunk line

/-- Read all the lines. -/
def run : Mode → List Text → Option (List Hunk)
  | mode, [] => mode.close
  | mode, line :: rest => do
      let (completed, next) ← mode.step line
      let hunks ← next.run rest
      some (completed ++ hunks)

theorem run_cons (mode : Mode) (line : Text) (rest : List Text) :
    mode.run (line :: rest) =
      (mode.step line).bind fun read => (read.2.run rest).map (read.1 ++ ·) := by
  cases stepped : mode.step line with
  | none => simp [run, stepped]
  | some read =>
      cases ran : read.2.run rest <;> simp [run, stepped, ran]

theorem run_cons_of_step {mode next : Mode} {line : Text}
    (stepped : mode.step line = some ([], next)) (rest : List Text) :
    mode.run (line :: rest) = next.run rest := by
  rw [run_cons, stepped]
  simp

/-- Two modes that read a line alike read all the lines after it alike. -/
theorem run_cons_congr {left right : Mode} {line : Text} (same : left.step line = right.step line)
    (rest : List Text) : left.run (line :: rest) = right.run (line :: rest) := by
  rw [run_cons, run_cons, same]

/-- Completing a hunk at a header is completing it and starting over from `idle`. -/
theorem run_of_closeAndReadHeader {mode : Mode} {line : Text}
    (stepped : mode.step line = closeAndReadHeader mode line) (rest : List Text) :
    mode.run (line :: rest) =
      mode.close.bind fun completed => (idle.run (line :: rest)).map (completed ++ ·) := by
  rw [run_cons, run_cons, stepped, closeAndReadHeader]
  cases mode.close with
  | none => rfl
  | some completed =>
      cases header : readHeader line with
      | none => simp [step, header]
      | some read =>
          cases ran : read.2.run rest <;> simp [step, header, ran]

/-! ## Added files -/

theorem step_adding_of_ne {path : PathBuf} {contents line : Text}
    (notPlus : line.head? ≠ some '+') :
    (adding path contents).step line = closeAndReadHeader (adding path contents) line := by
  rcases line with _ | ⟨c, content⟩
  · rfl
  · have other : c ≠ '+' := by simpa using notPlus
    simp [step, other]

theorem run_adding (path : PathBuf) (contents : Text) (lines : List Text) :
    (adding path contents).run lines =
      (idle.run (lines.drop (parseAddLines lines).2)).map
        (.addFile path (contents ++ (parseAddLines lines).1) :: ·) := by
  induction lines generalizing contents with
  | nil => simp [run, close, parseAddLines]
  | cons line rest ih =>
      by_cases plus : line.head? = some '+'
      · obtain ⟨content, rfl⟩ := List.head?_eq_some_iff.mp plus
        rw [run_cons_of_step (by rfl), ih]
        simp [parseAddLines]
      · have nothing : parseAddLines (line :: rest) = ([], 0) := by
          rcases line with _ | ⟨c, content⟩
          · rfl
          · have notPlus : c ≠ '+' := by simpa using plus
            simp [parseAddLines, notPlus]
        rw [run_of_closeAndReadHeader (step_adding_of_ne plus), nothing]
        simp [close]

/-! ## Chunks -/

theorem parseChunkLines_cons (lineNumber : Nat) (line : Text) (rest : List Text)
    (chunk : UpdateFileChunk) (parsedLines : Nat) :
    parseChunkLines lineNumber (line :: rest) chunk parsedLines =
      if line = eofMarker then
        if parsedLines = 0 then .error (noLinesError (lineNumber + 1))
        else .ok ({ chunk with isEndOfFile := true }, parsedLines + 1)
      else
        match chunk.read line with
        | some extended => parseChunkLines lineNumber rest extended (parsedLines + 1)
        | none =>
            if parsedLines = 0 then .error (unexpectedLineError line (lineNumber + 1))
            else .ok (chunk, parsedLines) := by
  rcases line with _ | ⟨c, content⟩
  · simp [parseChunkLines, UpdateFileChunk.read]
  · by_cases space : c = ' '
    · simp [parseChunkLines, UpdateFileChunk.read, space]
    by_cases plus : c = '+'
    · simp [parseChunkLines, UpdateFileChunk.read, plus]
    by_cases minus : c = '-'
    · simp [parseChunkLines, UpdateFileChunk.read, minus]
    · simp [parseChunkLines, UpdateFileChunk.read, space, plus, minus]

/-- Once a chunk has a diff line, the chunk loop stops where the machine leaves the chunk. -/
theorem run_inChunk (lineNumber : Nat) (draft : Draft) (lines : List Text)
    (chunk : UpdateFileChunk) (parsedLines : Nat) (positive : 0 < parsedLines) :
    ∃ final consumed,
      parseChunkLines lineNumber lines chunk parsedLines = .ok (final, parsedLines + consumed) ∧
        consumed ≤ lines.length ∧
        (inChunk draft chunk).run lines =
          (between (draft.push final)).run (lines.drop consumed) := by
  induction lines generalizing chunk parsedLines with
  | nil => exact ⟨chunk, 0, rfl, by simp, by simp [run, close]⟩
  | cons line rest ih =>
      have started : parsedLines ≠ 0 := by omega
      rw [parseChunkLines_cons]
      by_cases isEof : line = eofMarker
      · refine ⟨{ chunk with isEndOfFile := true }, 1, by simp [isEof, started], by simp, ?_⟩
        exact run_cons_of_step (by simp [step, readInChunk, isEof]) rest
      · cases read : chunk.read line with
        | none =>
            refine ⟨chunk, 0, by simp [isEof, started], by simp, ?_⟩
            exact run_cons_congr (by simp [step, readInChunk, isEof, read]) rest
        | some extended =>
            obtain ⟨final, consumed, parsed, bounded, ran⟩ :=
              ih extended (parsedLines + 1) (by omega)
            refine ⟨final, consumed + 1, ?_, by simpa using bounded, ?_⟩
            · simp only [isEof, ↓reduceIte, parsed]
              congr 2
              omega
            · rw [run_cons_of_step (by simp [step, readInChunk, isEof, read]; rfl), ran]
              simp

/-- A parsed chunk ends where the machine is between chunks again, and where there is no chunk the
machine accepts nothing.  `ran` is what the machine reads from `lines`. -/
def ChunkAgrees (draft : Draft) (lines : List Text) (ran : Option (List Hunk)) :
    Except ParseError (UpdateFileChunk × Nat) → Prop
  | .ok (chunk, consumed) =>
      0 < consumed ∧ consumed ≤ lines.length ∧
        ran = (between (draft.push chunk)).run (lines.drop consumed)
  | .error _ => ran = none

theorem run_opened (lineNumber : Nat) (draft : Draft) (context : Option Text) (line : Text)
    (rest : List Text) :
    ChunkAgrees draft (line :: rest) ((opened draft context).run (line :: rest))
      (parseChunkLines lineNumber (line :: rest) (emptyChunk context) 0) := by
  rw [parseChunkLines_cons]
  by_cases isEof : line = eofMarker
  · simp [isEof, run_cons, step, readFirst, ChunkAgrees]
  · cases read : (emptyChunk context).read line with
    | none => simp [isEof, run_cons, step, readFirst, read, ChunkAgrees]
    | some chunk =>
        obtain ⟨final, consumed, parsed, bounded, ran⟩ :=
          run_inChunk lineNumber draft rest chunk 1 (by omega)
        simp only [isEof, ↓reduceIte, parsed]
        refine ⟨by omega, by simp; omega, ?_⟩
        rw [run_cons_of_step (by simp [step, readFirst, isEof, read]; rfl), ran, Nat.add_comm 1]
        simp

/-- A context marker opens the chunk and the diff lines start on the next line. -/
theorem run_between_marked (lineNumber : Nat) {draft : Draft} {context : Option Text} {line : Text}
    (stepped : (between draft).step line = some ([], opened draft context)) (rest : List Text) :
    ChunkAgrees draft (line :: rest) ((between draft).run (line :: rest))
      (if (line :: rest).length ≤ 1 then .error (noLinesError (lineNumber + 1))
      else do
        let (chunk, parsedLines) ← parseChunkLines lineNumber rest (emptyChunk context) 0
        .ok (chunk, parsedLines + 1)) := by
  rw [run_cons_of_step stepped]
  cases rest with
  | nil => simp [run, close, ChunkAgrees]
  | cons next others =>
      have agreed := run_opened lineNumber draft context next others
      cases parsed : parseChunkLines lineNumber (next :: others) (emptyChunk context) 0 with
      | error e =>
          rw [parsed] at agreed
          exact agreed
      | ok result =>
          obtain ⟨chunk, consumed⟩ := result
          rw [parsed] at agreed
          obtain ⟨positive, bounded, ran⟩ := agreed
          simp only [List.length_cons] at bounded
          simp [bind, Except.bind, ChunkAgrees, ran, bounded]

theorem readBetween_visible {draft : Draft} {line : Text} (visible : line.trim ≠ [])
    (notHeader : line.startsWith headerStart ≠ true) :
    readBetween draft line =
      if line = emptyChangeContextMarker then some ([], .opened draft none)
      else
        match line.stripPrefix changeContextMarker with
        | some context => some ([], .opened draft (some context))
        | none => if draft.chunks = [] then readFirst draft none line else none := by
  rw [readBetween, if_neg visible, if_neg notHeader]

theorem trim_context_ne_nil (context : Text) : Text.trim (changeContextMarker ++ context) ≠ [] := by
  intro blank
  have kept : Text.trim (changeContextMarker ++ context) =
      Text.trimEnd (['@', '@', ' '] ++ context) := rfl
  rw [kept, Text.trimEnd, List.rdropWhile_eq_nil_iff] at blank
  exact absurd (blank '@' (by simp)) (by decide)

theorem step_between_contextLine (draft : Draft) (context : Option Text) :
    (between draft).step (contextLine context) = some ([], opened draft context) := by
  cases context with
  | none => rfl
  | some context =>
      have notHeader : Text.startsWith (changeContextMarker ++ context) headerStart ≠ true := by
        intro header
        exact absurd (show false = true from header) (by decide)
      have marked : changeContextMarker ++ context ≠ emptyChangeContextMarker := by
        intro same
        exact absurd (congrArg List.length same) (by simp [changeContextMarker,
          emptyChangeContextMarker])
      rw [contextLine, step, readBetween_visible (trim_context_ne_nil context) notHeader,
        if_neg marked, Text.stripPrefix_append]

/-- One chunk of an updated file. -/
theorem run_between_chunk (lineNumber : Nat) (draft : Draft) (line : Text) (rest : List Text)
    (visible : line.trim ≠ []) (notHeader : line.startsWith headerStart ≠ true) :
    ChunkAgrees draft (line :: rest) ((between draft).run (line :: rest))
      (parseUpdateFileChunk (line :: rest) lineNumber draft.chunks.isEmpty) := by
  have stepped : (between draft).step line = _ := readBetween_visible visible notHeader
  by_cases unmarked : line = emptyChangeContextMarker
  · rw [if_pos unmarked] at stepped
    simpa [parseUpdateFileChunk, unmarked, emptyChunk, bind, Except.bind] using
      run_between_marked lineNumber stepped rest
  rw [if_neg unmarked] at stepped
  cases stripped : line.stripPrefix changeContextMarker with
  | some context =>
      rw [stripped] at stepped
      simpa [parseUpdateFileChunk, unmarked, stripped, emptyChunk, bind, Except.bind] using
        run_between_marked lineNumber stepped rest
  | none =>
      rw [stripped] at stepped
      by_cases noChunks : draft.chunks = []
      · rw [noChunks] at stepped
        have same : (between draft).step line = (opened draft none).step line := stepped
        rw [run_cons_congr same]
        have agreed := run_opened lineNumber draft none line rest
        cases parsed : parseChunkLines lineNumber (line :: rest) (emptyChunk none) 0 with
        | error e | ok result =>
            rw [parsed] at agreed
            simp only [emptyChunk] at parsed
            simpa [parseUpdateFileChunk, unmarked, stripped, noChunks, bind, Except.bind, parsed]
              using agreed
      · simp only [noChunks, ↓reduceIte] at stepped
        simp [parseUpdateFileChunk, unmarked, stripped, noChunks, run_cons, stepped, bind,
          Except.bind, ChunkAgrees]

/-! ## Updated files -/

theorem parseChunks_skip (lines : List Text) (skip lineNumber : Nat)
    (chunks : List UpdateFileChunk) (bounded : skip ≤ lines.length) :
    parseChunks lines skip lineNumber chunks =
      (parseChunks (lines.drop skip) 0 (lineNumber + skip) chunks).map
        fun result => (result.1, result.2 + skip) := by
  induction skip generalizing lines lineNumber with
  | zero => cases parsed : parseChunks lines 0 lineNumber chunks <;> simp [parsed, Except.map]
  | succ skip ih =>
      cases lines with
      | nil => simp at bounded
      | cons line rest =>
          rw [parseChunks, ih rest (lineNumber + 1) (by simpa using bounded)]
          rw [show lineNumber + (skip + 1) = lineNumber + 1 + skip by omega, List.drop_succ_cons]
          cases parseChunks (rest.drop skip) 0 (lineNumber + 1 + skip) chunks <;>
            simp [bind, Except.bind, Except.map, Nat.add_assoc]

/-- The chunks of an updated file end where the machine starts over from `idle`. -/
def ChunksAgree (draft : Draft) (lines : List Text) (ran : Option (List Hunk)) :
    Except ParseError (List UpdateFileChunk × Nat) → Prop
  | .ok (chunks, consumed) =>
      consumed ≤ lines.length ∧
        ran =
          if chunks = [] then none
          else
            (idle.run (lines.drop consumed)).map
              (Hunk.updateFile draft.path draft.movePath chunks :: ·)
  | .error _ => ran = none

theorem run_between (lines : List Text) (lineNumber : Nat) (draft : Draft) :
    ChunksAgree draft lines ((between draft).run lines)
      (parseChunks lines 0 lineNumber draft.chunks) := by
  induction bound : lines.length using Nat.strong_induction_on
    generalizing lines lineNumber draft with
  | _ count ih =>
      cases lines with
      | nil => simp [parseChunks, ChunksAgree, run, close, Draft.hunk]
      | cons line rest =>
          simp only [List.length_cons] at bound
          rw [parseChunks]
          by_cases blank : line.trim = []
          · have later := ih rest.length (by omega) rest (lineNumber + 1) draft rfl
            have stepped : (between draft).step line = some ([], between draft) := by
              simp [step, readBetween, blank]
            rw [run_cons_of_step stepped, if_pos blank]
            cases parsed : parseChunks rest 0 (lineNumber + 1) draft.chunks with
            | error e =>
                rw [parsed] at later
                exact later
            | ok result =>
                rw [parsed] at later
                simpa [ChunksAgree, bind, Except.bind] using later
          by_cases header : line.startsWith headerStart = true
          · have stepped : (between draft).step line = closeAndReadHeader (between draft) line := by
              simp [step, readBetween, blank, header]
            rw [run_of_closeAndReadHeader stepped, if_neg blank, if_pos header]
            by_cases noChunks : draft.chunks = []
            · simp [ChunksAgree, close, noChunks]
            · simp [ChunksAgree, close, noChunks, Draft.hunk]
          · rw [if_neg blank, if_neg header]
            have agreed := run_between_chunk lineNumber draft line rest blank header
            cases parsed : parseUpdateFileChunk (line :: rest) lineNumber draft.chunks.isEmpty with
            | error e =>
                rw [parsed] at agreed
                exact agreed
            | ok result =>
                obtain ⟨chunk, consumed⟩ := result
                rw [parsed] at agreed
                obtain ⟨positive, bounded, ran⟩ := agreed
                obtain ⟨consumed, rfl⟩ : ∃ k, consumed = k + 1 := ⟨consumed - 1, by omega⟩
                simp only [List.length_cons] at bounded
                have later := ih (rest.drop consumed).length (by simp; omega)
                  (rest.drop consumed) (lineNumber + 1 + consumed) (draft.push chunk) rfl
                rw [List.drop_succ_cons] at ran
                rw [ran]
                simp only [bind, Except.bind, Nat.add_sub_cancel]
                rw [parseChunks_skip rest consumed _ _ (by omega)]
                cases tail : parseChunks (rest.drop consumed) 0 (lineNumber + 1 + consumed)
                    (draft.chunks ++ [chunk]) with
                | error e =>
                    rw [Draft.push_chunks, tail] at later
                    exact later
                | ok result =>
                    obtain ⟨chunks, parsedLines⟩ := result
                    rw [Draft.push_chunks, tail] at later
                    obtain ⟨within, ranLater⟩ := later
                    simp only [List.length_drop] at within
                    refine ⟨by simp; omega, ?_⟩
                    rw [ranLater]
                    simp only [Draft.push, List.drop_drop, List.drop_succ_cons]
                    rw [Nat.add_comm consumed]

/-! ## Hunks -/

theorem parseHunks_skip (lines : List Text) (skip lineNumber : Nat) :
    parseHunks lines skip lineNumber = parseHunks (lines.drop skip) 0 (lineNumber + skip) := by
  induction skip generalizing lines lineNumber with
  | zero => rfl
  | succ skip ih =>
      cases lines with
      | nil => simp [parseHunks]
      | cons line rest =>
          rw [parseHunks, ih, List.drop_succ_cons]
          congr 1
          omega

/-- One hunk: the machine completes the parsed hunk and starts over after its lines. -/
def HunkAgrees (lines : List Text) (ran : Option (List Hunk)) :
    Except ParseError (Hunk × Nat) → Prop
  | .ok (hunk, consumed) => 0 < consumed ∧ ran = (idle.run (lines.drop consumed)).map (hunk :: ·)
  | .error _ => ran = none

/-- The chunk loop of an updated file, started after its header and its move line. -/
theorem run_update (header : List Text) {path : PathBuf} {movePath : Option PathBuf}
    {ran : Option (List Hunk)} {lines : List Text} {start : Nat} {error : ParseError}
    (nonempty : header ≠ []) (ranBetween : ran = (between ⟨path, movePath, []⟩).run lines) :
    HunkAgrees (header ++ lines) ran
      (do
        let (chunks, chunkLines) ← parseChunks lines 0 start []
        if chunks.isEmpty then .error error
        else .ok (.updateFile path movePath chunks, header.length + chunkLines)) := by
  have agreed := run_between lines start ⟨path, movePath, []⟩
  rw [ranBetween]
  cases parsed : parseChunks lines 0 start [] with
  | error e =>
      rw [parsed] at agreed
      exact agreed
  | ok result =>
      obtain ⟨chunks, consumed⟩ := result
      rw [parsed] at agreed
      obtain ⟨_, agreed⟩ := agreed
      rw [agreed]
      have positive : 0 < header.length := List.length_pos_iff.mpr nonempty
      cases chunks with
      | nil => simp [bind, Except.bind, HunkAgrees]
      | cons chunk chunks =>
          refine ⟨by omega, ?_⟩
          simp

theorem run_idle_hunk (line : Text) (rest : List Text) (lineNumber : Nat) :
    HunkAgrees (line :: rest) (idle.run (line :: rest)) (parseOneHunk line rest lineNumber) := by
  have stepped : idle.step line = readHeader line := rfl
  rw [run_cons, stepped, readHeader, parseOneHunk]
  cases line.trim.stripPrefix addFileMarker with
  | some path =>
      refine ⟨by simp, ?_⟩
      simp [run_adding path [] rest, Function.comp_def]
  | none =>
      cases line.trim.stripPrefix deleteFileMarker with
      | some path =>
          refine ⟨by simp, ?_⟩
          simp
      | none =>
          cases line.trim.stripPrefix updateFileMarker with
          | none => simp [HunkAgrees]
          | some path =>
              cases rest with
              | nil =>
                  simp [run, close, parseChunks, bind, Except.bind, HunkAgrees]
              | cons second others =>
                  cases moved : second.stripPrefix moveToMarker with
                  | some dest =>
                      have ran : (fresh path).run (second :: others) =
                          (between ⟨path, some dest, []⟩).run others :=
                        run_cons_of_step (by simp [step, moved]) others
                      simpa [moved] using
                        run_update [line, second] (by simp) ran
                  | none =>
                      have ran : (fresh path).run (second :: others) =
                          (between ⟨path, none, []⟩).run (second :: others) :=
                        run_cons_congr (by simp [step, moved]) others
                      simpa [moved] using run_update [line] (by simp) ran

/-- The parser and the line machine accept the same lines and read the same hunks. -/
theorem parseHunks_toOption (lines : List Text) (lineNumber : Nat) :
    (parseHunks lines 0 lineNumber).toOption = idle.run lines := by
  induction bound : lines.length using Nat.strong_induction_on generalizing lines lineNumber with
  | _ count ih =>
      cases lines with
      | nil => rfl
      | cons line rest =>
          simp only [List.length_cons] at bound
          rw [parseHunks]
          have agreed := run_idle_hunk line rest lineNumber
          cases parsed : parseOneHunk line rest lineNumber with
          | error e =>
              rw [parsed] at agreed
              exact agreed.symm
          | ok result =>
              obtain ⟨hunk, consumed⟩ := result
              rw [parsed] at agreed
              obtain ⟨positive, ran⟩ := agreed
              obtain ⟨consumed, rfl⟩ : ∃ k, consumed = k + 1 := ⟨consumed - 1, by omega⟩
              have later := ih (rest.drop consumed).length (by simp; omega)
                (rest.drop consumed) (lineNumber + 1 + consumed) rfl
              rw [ran, List.drop_succ_cons, ← later]
              simp only [bind, Except.bind, Nat.add_sub_cancel]
              rw [parseHunks_skip]
              cases parseHunks (rest.drop consumed) 0 (lineNumber + 1 + consumed) <;> rfl

theorem parseHunks_eq_ok_iff {lines : List Text} {lineNumber : Nat} {hunks : List Hunk} :
    parseHunks lines 0 lineNumber = .ok hunks ↔ idle.run lines = some hunks := by
  rw [← parseHunks_toOption lines lineNumber]
  cases parseHunks lines 0 lineNumber <;> simp [Except.toOption]

end Mode

/-! ## Patch texts -/

/-- The lines of an accepted patch text: two outer lines that trim to the markers around a body. -/
structure Framed (first : Text) (body : List Text) (last : Text) : Prop where
  opening : first.trim = beginPatchMarker
  closing : last.trim = endPatchMarker
  firstClean : '\n' ∉ first
  bodyClean : ∀ line ∈ body, '\n' ∉ line
  lastClean : '\n' ∉ last

theorem checkStartAndEndLinesStrict_eq_ok_iff {first last : Text} :
    checkStartAndEndLinesStrict (some first) (some last) = .ok () ↔
      first.trim = beginPatchMarker ∧ last.trim = endPatchMarker := by
  simp only [checkStartAndEndLinesStrict, Option.map_some]
  split
  · simpa
  · rename_i wrong
    constructor
    · intro checked
      split at checked <;> cases checked
    · intro right
      exact absurd right wrong

theorem checkPatchBoundariesStrict_eq_ok_iff {lines : List Text} :
    checkPatchBoundariesStrict lines = .ok () ↔
      ∃ first body last, lines = first :: body ++ [last] ∧
        first.trim = beginPatchMarker ∧ last.trim = endPatchMarker := by
  constructor
  · intro checked
    cases lines with
    | nil => cases checked
    | cons first rest =>
        rcases List.eq_nil_or_concat rest with rfl | ⟨body, last, rfl⟩
        · obtain ⟨opening, closing⟩ := checkStartAndEndLinesStrict_eq_ok_iff.mp checked
          exact absurd (opening.symm.trans closing) (by decide)
        · have ended : (first :: body.concat last).getLast? = some last := by
            rw [List.concat_eq_append, ← List.cons_append, List.getLast?_concat]
          rw [checkPatchBoundariesStrict, ended] at checked
          obtain ⟨opening, closing⟩ := checkStartAndEndLinesStrict_eq_ok_iff.mp checked
          exact ⟨first, body, last, by simp, opening, closing⟩
  · rintro ⟨first, body, last, rfl, opening, closing⟩
    rw [checkPatchBoundariesStrict, List.getLast?_concat]
    exact checkStartAndEndLinesStrict_eq_ok_iff.mpr ⟨opening, closing⟩

theorem checkPatchBoundariesLenient_ok {lines inner : List Text} {error : ParseError}
    (checked : checkPatchBoundariesLenient lines error = .ok inner) :
    inner ⊆ lines ∧ checkPatchBoundariesStrict inner = .ok () := by
  rcases lines with _ | ⟨first, _ | ⟨second, rest⟩⟩
  · cases checked
  · cases checked
  · simp only [checkPatchBoundariesLenient] at checked
    split at checked
    · cases strict : checkPatchBoundariesStrict (second :: rest).dropLast with
      | error e =>
          rw [strict] at checked
          cases checked
      | ok _ =>
          rw [strict] at checked
          cases checked
          refine ⟨?_, strict⟩
          intro line member
          exact List.mem_cons_of_mem _ (List.mem_of_mem_dropLast member)
    · cases checked

/-- Whatever the wrapping, the accepted lines are framed lines of the trimmed text. -/
theorem patchLines_ok {patch : Text} {mode : ParseMode} {lines : List Text}
    (accepted : patchLines patch mode = .ok lines) :
    lines ⊆ patch.trim.lines ∧ checkPatchBoundariesStrict lines = .ok () := by
  simp only [patchLines] at accepted
  cases strict : checkPatchBoundariesStrict patch.trim.lines with
  | ok _ =>
      rw [strict] at accepted
      cases accepted
      exact ⟨fun _ member => member, strict⟩
  | error e =>
      rw [strict] at accepted
      cases mode with
      | strict => cases accepted
      | lenient => exact checkPatchBoundariesLenient_ok accepted

/-- What an accepted patch text looks like. -/
theorem parsePatch_ok {patch : Text} {args : ApplyPatchArgs}
    (parsed : parsePatch patch = .ok args) :
    ∃ first body last, Framed first body last ∧
      patchLines patch .lenient = .ok (first :: body ++ [last]) ∧
      args.patch = Text.join ['\n'] (first :: body ++ [last]) ∧
      Mode.idle.run body = some args.hunks ∧ args.workdir = none := by
  have lenient : (if parseInStrictMode then ParseMode.strict else .lenient) = .lenient := rfl
  simp only [parsePatch, lenient, parsePatchText, bind, Except.bind] at parsed
  split at parsed
  · cases parsed
  · rename_i lines accepted
    obtain ⟨within, checked⟩ := patchLines_ok accepted
    obtain ⟨first, body, last, rfl, opening, closing⟩ :=
      checkPatchBoundariesStrict_eq_ok_iff.mp checked
    have clean : ∀ line ∈ first :: body ++ [last], '\n' ∉ line := fun line member =>
      Text.newline_not_mem_lines (within member)
    have inner : (first :: body ++ [last]).tail.dropLast = body := by simp
    rw [inner] at parsed
    split at parsed
    · cases parsed
    · rename_i hunks read
      cases parsed
      refine ⟨first, body, last, ⟨opening, closing, ?_, ?_, ?_⟩, accepted, rfl,
        Mode.parseHunks_eq_ok_iff.mp read, rfl⟩
      · exact clean first (by simp)
      · exact fun line member => clean line (by simp [member])
      · exact clean last (by simp)

namespace Framed

variable {first last : Text} {body : List Text}

theorem lines_trim_join (framed : Framed first body last) :
    (Text.join ['\n'] (first :: body ++ [last])).trim.lines =
      Text.stripCr (Text.trimStart first) :: body.map Text.stripCr ++ [Text.trimEnd last] := by
  have firstInk : Text.HasInk first :=
    Text.hasInk_of_trim_ne_nil (by rw [framed.opening]; decide)
  have lastTrim : Text.trim (Text.trimEnd last) = endPatchMarker := by
    rw [Text.trim_trimEnd, framed.closing]
  have lastInk : Text.HasInk last :=
    Text.hasInk_of_trim_ne_nil (by rw [framed.closing]; decide)
  rw [Text.trim_join firstInk lastInk, Text.lines_join]
  · simp
  · intro line member
    rcases List.mem_cons.mp member with rfl | inBody
    · exact fun newline => framed.firstClean ((List.dropWhile_suffix _).subset newline)
    · exact framed.bodyClean line inBody
  · exact fun newline => framed.lastClean ((List.rdropWhile_prefix _ _).subset newline)
  · intro empty
    rw [empty] at lastTrim
    exact absurd lastTrim (by decide)

/-- Parsing the joined lines of a framed body reads the body with one carriage return less at the
end of each line. -/
theorem parsePatch_join (framed : Framed first body last) {args : ApplyPatchArgs} :
    parsePatch (Text.join ['\n'] (first :: body ++ [last])) = .ok args ↔
      ∃ hunks, Mode.idle.run (body.map Text.stripCr) = some hunks ∧
        args =
          { patch := Text.join ['\n']
              (Text.stripCr (Text.trimStart first) :: body.map Text.stripCr ++ [Text.trimEnd last])
            hunks
            workdir := none } := by
  have checked : checkPatchBoundariesStrict
      (Text.stripCr (Text.trimStart first) :: body.map Text.stripCr ++ [Text.trimEnd last]) =
        .ok () := by
    refine checkPatchBoundariesStrict_eq_ok_iff.mpr ⟨_, _, _, rfl, ?_, ?_⟩
    · rw [Text.trim_stripCr, Text.trim_trimStart, framed.opening]
    · rw [Text.trim_trimEnd, framed.closing]
  have accepted := framed.lines_trim_join
  simp only [parsePatch, parsePatchText, patchLines, accepted, checked, bind, Except.bind]
  have inner : (Text.stripCr (Text.trimStart first) :: body.map Text.stripCr ++
      [Text.trimEnd last]).tail.dropLast = body.map Text.stripCr := by simp
  rw [inner]
  cases read : parseHunks (body.map Text.stripCr) 0 2 with
  | error e =>
      have stuck : Mode.idle.run (body.map Text.stripCr) = none := by
        rw [← Mode.parseHunks_toOption _ 2, read]
        rfl
      simp [stuck]
  | ok hunks =>
      rw [Mode.parseHunks_eq_ok_iff.mp read]
      constructor
      · intro parsed
        cases parsed
        exact ⟨hunks, rfl, rfl⟩
      · rintro ⟨others, same, rfl⟩
        cases same
        rfl

end Framed

end CodexPilot.ApplyPatch
