import CodexPilot.ApplyPatch.Parser
import CodexPilot.RustStd.Iter

/-!
# New contents of an updated file

Each chunk of an update is located in the lines of the file, which gives one replacement; the
replacements are sorted and applied from the last to the first.
-/

namespace CodexPilot.ApplyPatch

open RustStd

/-- A failed file operation. -/
structure IoError where
  /-- What was being done. -/
  context : Text
  /-- Message of the operating system. -/
  source : Text
  deriving DecidableEq

/-- What can go wrong with a patch. -/
inductive ApplyPatchError where
  | parseError (error : ParseError)
  | ioError (error : IoError)
  /-- A chunk could not be located. -/
  | computeReplacements (message : Text)
  /-- A patch body without an `apply_patch` in front of it. -/
  | implicitInvocation
  deriving DecidableEq

/-! ## Searching lines -/

/-- Typographic dashes, quotes and spaces read as their ASCII counterparts. -/
def normaliseChar (c : Char) : Char :=
  if c.toNat ∈ [0x2010, 0x2011, 0x2012, 0x2013, 0x2014, 0x2015, 0x2212] then '-'
  else if c.toNat ∈ [0x2018, 0x2019, 0x201A, 0x201B] then '\''
  else if c.toNat ∈ [0x201C, 0x201D, 0x201E, 0x201F] then '"'
  else if c.toNat ∈ [0x00A0, 0x2002, 0x2003, 0x2004, 0x2005, 0x2006, 0x2007, 0x2008, 0x2009,
      0x200A, 0x202F, 0x205F, 0x3000] then ' '
  else c

/-- A line trimmed, with common punctuation in ASCII. -/
def normalise (line : Text) : Text := line.trim.map normaliseChar

/-- Whether `pattern` stands at `index`, both sides seen through `view`. -/
def matchesAt (view : Text → Text) (lines pattern : List Text) (index : ℕ) : Bool :=
  ((lines.drop index).take pattern.length).map view == pattern.map view

/-- The first position from `searchStart` on where `pattern` stands, seen through `view`. -/
def seekPass (view : Text → Text) (lines pattern : List Text) (searchStart : ℕ) : Option ℕ :=
  (List.range' searchStart (lines.length - pattern.length + 1 - searchStart)).find?
    (matchesAt view lines pattern)

/-- Find `pattern` in `lines`, with decreasing strictness.  At the end of a file only the last
position is tried. -/
def seekSequence (lines pattern : List Text) (start : ℕ) (eof : Bool) : Option ℕ :=
  if pattern = [] then some start
  else if lines.length < pattern.length then none
  else
    let searchStart :=
      if eof = true ∧ pattern.length ≤ lines.length then lines.length - pattern.length else start
    seekPass id lines pattern searchStart
      <|> seekPass Text.trimEnd lines pattern searchStart
      <|> seekPass Text.trim lines pattern searchStart
      <|> seekPass normalise lines pattern searchStart

/-! ## Replacements -/

/-- Lines put in the place of `oldLen` lines from `startIndex` on. -/
structure Replacement where
  startIndex : ℕ
  oldLen : ℕ
  newLines : List Text
  deriving DecidableEq

/-- A context that no line matches. -/
def contextNotFoundError (contextLine : Text) (path : PathBuf) : ApplyPatchError :=
  .computeReplacements
    ("Failed to find context '".toList ++ contextLine ++ "' in ".toList ++ path)

def linesNotFoundError (path : PathBuf) (oldLines : List Text) : ApplyPatchError :=
  .computeReplacements
    ("Failed to find expected lines in ".toList ++ path ++ ":\n".toList ++
      Text.join ['\n'] oldLines)

/-- The position after the context line of a chunk. -/
def seekContext (originalLines : List Text) (path : PathBuf) (changeContext : Option Text)
    (lineIndex : ℕ) : Except ApplyPatchError ℕ :=
  match changeContext with
  | none => .ok lineIndex
  | some contextLine =>
      match seekSequence originalLines [contextLine] lineIndex false with
      | some index => .ok (index + 1)
      | none => .error (contextNotFoundError contextLine path)

/-- The list without a last line that is empty. -/
def dropEmptyLast (lines : List Text) : List Text :=
  if lines.getLast? = some [] then lines.dropLast else lines

/-- One round of the loop over the chunks: the replacement, and where the next search starts. -/
def computeReplacement (originalLines : List Text) (path : PathBuf) (lineIndex : ℕ)
    (chunk : UpdateFileChunk) : Except ApplyPatchError (Replacement × ℕ) := do
  let lineIndex ← seekContext originalLines path chunk.changeContext lineIndex
  if chunk.oldLines = [] then
    -- A pure addition goes to the end, before a last line that is empty.
    .ok (⟨(dropEmptyLast originalLines).length, 0, chunk.newLines⟩, lineIndex)
  else
    match seekSequence originalLines chunk.oldLines lineIndex chunk.isEndOfFile with
    | some startIndex =>
        .ok (⟨startIndex, chunk.oldLines.length, chunk.newLines⟩,
          startIndex + chunk.oldLines.length)
    | none =>
        if chunk.oldLines.getLast? = some [] then
          -- The empty last line stands for the final newline, which the lines do not contain.
          let pattern := chunk.oldLines.dropLast
          match seekSequence originalLines pattern lineIndex chunk.isEndOfFile with
          | some startIndex =>
              .ok (⟨startIndex, pattern.length, dropEmptyLast chunk.newLines⟩,
                startIndex + pattern.length)
          | none => .error (linesNotFoundError path chunk.oldLines)
        else .error (linesNotFoundError path chunk.oldLines)

/-- The loop over the chunks. -/
def collectReplacements (originalLines : List Text) (path : PathBuf) :
    List UpdateFileChunk → ℕ → Except ApplyPatchError (List Replacement)
  | [], _ => .ok []
  | chunk :: chunks, lineIndex => do
      let (replacement, lineIndex) ← computeReplacement originalLines path lineIndex chunk
      let replacements ← collectReplacements originalLines path chunks lineIndex
      .ok (replacement :: replacements)

/-- The replacements of all chunks, by their position. -/
def computeReplacements (originalLines : List Text) (path : PathBuf)
    (chunks : List UpdateFileChunk) : Except ApplyPatchError (List Replacement) := do
  let replacements ← collectReplacements originalLines path chunks 0
  .ok (sortByKey Replacement.startIndex replacements)

/-- Remove the line at `index`, if there is one. -/
def removeLine (index : ℕ) (lines : List Text) : List Text :=
  if index < lines.length then lines.eraseIdx index else lines

/-- Carry out one replacement. -/
def applyReplacement (lines : List Text) (replacement : Replacement) : List Text :=
  let remaining := (removeLine replacement.startIndex)^[replacement.oldLen] lines
  replacement.newLines.zipIdx.foldl
    (fun lines (line, offset) => lines.insertIdx (replacement.startIndex + offset) line) remaining

/-- Carry out all replacements, the last one first so that no position shifts. -/
def applyReplacements (lines : List Text) (replacements : List Replacement) : List Text :=
  replacements.reverse.foldl applyReplacement lines

/-- The contents of a file after the chunks of an update. -/
def patchContents (originalContents : Text) (path : PathBuf) (chunks : List UpdateFileChunk) :
    Except ApplyPatchError Text := do
  let originalLines := dropEmptyLast (List.splitOn '\n' originalContents)
  let replacements ← computeReplacements originalLines path chunks
  let newLines := applyReplacements originalLines replacements
  .ok (Text.join ['\n'] (if newLines.getLast? = some [] then newLines else newLines ++ [[]]))

/-! ## Success does not depend on the name of the file -/

section Renaming

variable {originalLines : List Text} {path : PathBuf} {lineIndex : ℕ}

theorem seekContext_rename {changeContext : Option Text} {next : ℕ}
    (found : seekContext originalLines path changeContext lineIndex = .ok next) (name : PathBuf) :
    seekContext originalLines name changeContext lineIndex = .ok next := by
  cases changeContext with
  | none => exact found
  | some contextLine =>
      simp only [seekContext] at found ⊢
      cases position : seekSequence originalLines [contextLine] lineIndex false with
      | none => simp [position] at found
      | some index => simpa [position] using found

theorem computeReplacement_rename {chunk : UpdateFileChunk} {result : Replacement × ℕ}
    (computed : computeReplacement originalLines path lineIndex chunk = .ok result)
    (name : PathBuf) : computeReplacement originalLines name lineIndex chunk = .ok result := by
  unfold computeReplacement at computed ⊢
  cases context : seekContext originalLines path chunk.changeContext lineIndex with
  | error error => simp [context, bind, Except.bind] at computed
  | ok next =>
      rw [context] at computed
      rw [seekContext_rename context name]
      simp only [bind, Except.bind] at computed ⊢
      -- The branches differ in their error messages only.
      repeat' split at computed
      all_goals simp_all

theorem collectReplacements_rename {chunks : List UpdateFileChunk} {replacements : List Replacement}
    (collected : collectReplacements originalLines path chunks lineIndex = .ok replacements)
    (name : PathBuf) :
    collectReplacements originalLines name chunks lineIndex = .ok replacements := by
  induction chunks generalizing lineIndex replacements with
  | nil => exact collected
  | cons chunk chunks ih =>
      simp only [collectReplacements] at collected ⊢
      cases computed : computeReplacement originalLines path lineIndex chunk with
      | error error => simp [computed, bind, Except.bind] at collected
      | ok first =>
          rw [computed] at collected
          rw [computeReplacement_rename computed name]
          simp only [bind, Except.bind] at collected ⊢
          cases rest : collectReplacements originalLines path chunks first.2 with
          | error error => simp [rest] at collected
          | ok others => rwa [ih rest, ← rest]

/-- The new contents do not depend on how the file is called in the error messages. -/
theorem patchContents_rename {originalContents newContents : Text} {chunks : List UpdateFileChunk}
    (patched : patchContents originalContents path chunks = .ok newContents) (name : PathBuf) :
    patchContents originalContents name chunks = .ok newContents := by
  simp only [patchContents, computeReplacements] at patched ⊢
  cases collected : collectReplacements (dropEmptyLast (List.splitOn '\n' originalContents)) path
      chunks 0 with
  | error error => simp [collected, bind, Except.bind] at patched
  | ok replacements => rwa [collectReplacements_rename collected name, ← collected]

end Renaming

end CodexPilot.ApplyPatch
