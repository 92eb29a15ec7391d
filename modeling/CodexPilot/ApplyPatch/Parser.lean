import CodexPilot.RustStd.Path

/-!
# The patch parser

Parsing and validation of a patch into a list of hunks.  A patch is read line by line; each parsing
function returns what it read together with the number of lines it consumed, and its caller
continues after them.
-/

namespace CodexPilot.ApplyPatch

open RustStd

/-- First line of a patch. -/
def beginPatchMarker : Text := "*** Begin Patch".toList
/-- Last line of a patch. -/
def endPatchMarker : Text := "*** End Patch".toList
/-- Header of an added file. -/
def addFileMarker : Text := "*** Add File: ".toList
/-- Header of a deleted file. -/
def deleteFileMarker : Text := "*** Delete File: ".toList
/-- Header of an updated file. -/
def updateFileMarker : Text := "*** Update File: ".toList
/-- Destination of an updated file. -/
def moveToMarker : Text := "*** Move to: ".toList
/-- End of a chunk anchored at the end of the file. -/
def eofMarker : Text := "*** End of File".toList
/-- Start of a chunk with a context line. -/
def changeContextMarker : Text := "@@ ".toList
/-- Start of a chunk without a context line. -/
def emptyChangeContextMarker : Text := "@@".toList

/-- Start of every header line. -/
def headerStart : Text := "***".toList

/-- What can be wrong with a patch text. -/
inductive ParseError where
  | invalidPatchError (message : Text)
  | invalidHunkError (message : Text) (lineNumber : Nat)
  deriving DecidableEq

/-- One replacement inside an updated file. -/
structure UpdateFileChunk where
  /-- Line that narrows down the position of the chunk. -/
  changeContext : Option Text
  /-- Contiguous block of lines to be replaced. -/
  oldLines : List Text
  /-- Lines put in their place. -/
  newLines : List Text
  /-- The old lines must occur at the end of the file. -/
  isEndOfFile : Bool
  deriving DecidableEq

/-- One file operation of a patch. -/
inductive Hunk where
  | addFile (path : PathBuf) (contents : Text)
  | deleteFile (path : PathBuf)
  | updateFile (path : PathBuf) (movePath : Option PathBuf) (chunks : List UpdateFileChunk)
  deriving DecidableEq

namespace Hunk

/-- Path in the header of a hunk. -/
def path : Hunk → PathBuf
  | .addFile path _ | .deleteFile path | .updateFile path _ _ => path

end Hunk

/-- The parsed argument of `apply_patch`. -/
structure ApplyPatchArgs where
  /-- Lines of the patch, joined again. -/
  patch : Text
  /-- Parsed hunks. -/
  hunks : List Hunk
  /-- Directory of a `cd` in front of the invocation. -/
  workdir : Option Text

/-- Whether a heredoc wrapper around the patch is tolerated. -/
inductive ParseMode where
  | strict
  | lenient
  deriving DecidableEq

/-- Strictness of `parsePatch`. -/
def parseInStrictMode : Bool := false

/-! ## Boundaries -/

def firstLineError : ParseError :=
  .invalidPatchError "The first line of the patch must be '*** Begin Patch'".toList

def lastLineError : ParseError :=
  .invalidPatchError "The last line of the patch must be '*** End Patch'".toList

/-- Compare the trimmed outer lines with the two patch markers. -/
def checkStartAndEndLinesStrict (firstLine lastLine : Option Text) : Except ParseError Unit :=
  match firstLine.map Text.trim, lastLine.map Text.trim with
  | some first, some last =>
      if first = beginPatchMarker ∧ last = endPatchMarker then .ok ()
      else if first ≠ beginPatchMarker then .error firstLineError
      else .error lastLineError
  | some first, none =>
      if first ≠ beginPatchMarker then .error firstLineError else .error lastLineError
  | none, _ => .error lastLineError

/-- Check the first and the last line of a patch. -/
def checkPatchBoundariesStrict (lines : List Text) : Except ParseError Unit :=
  checkStartAndEndLinesStrict lines.head? lines.getLast?

/-- The opening lines of a heredoc that the lenient mode strips. -/
def heredocOpeners : List Text := ["<<EOF".toList, "<<'EOF'".toList, "<<\"EOF\"".toList]

/-- Strip a heredoc wrapper, or report the error of the strict check. -/
def checkPatchBoundariesLenient (originalLines : List Text) (originalParseError : ParseError) :
    Except ParseError (List Text) :=
  match originalLines with
  | first :: second :: rest =>
      let last := (second :: rest).getLast (List.cons_ne_nil second rest)
      if first ∈ heredocOpeners ∧ last.endsWith "EOF".toList = true ∧ 4 ≤ originalLines.length then
        let innerLines := (second :: rest).dropLast
        match checkPatchBoundariesStrict innerLines with
        | .ok () => .ok innerLines
        | .error error => .error error
      else
        .error originalParseError
  | _ => .error originalParseError

/-! ## Chunks -/

/-- Error of a line that is neither a diff line nor the start of something else. -/
def unexpectedLineError (line : Text) (lineNumber : Nat) : ParseError :=
  .invalidHunkError
    ("Unexpected line found in update hunk: '".toList ++ line ++
      "'. Every line should start with ' ' (context line), '+' (added line), ".toList ++
      "or '-' (removed line)".toList)
    lineNumber

/-- Error of a chunk without diff lines. -/
def noLinesError (lineNumber : Nat) : ParseError :=
  .invalidHunkError "Update hunk does not contain any lines".toList lineNumber

/-- Error of a later chunk that does not start with a context marker. -/
def missingContextError (line : Text) (lineNumber : Nat) : ParseError :=
  .invalidHunkError
    ("Expected update hunk to start with a @@ context marker, got: '".toList ++ line ++ "'".toList)
    lineNumber

/-- The loop over the diff lines of a chunk; `parsedLines` counts the lines already consumed. -/
def parseChunkLines (lineNumber : Nat) :
    List Text → UpdateFileChunk → Nat → Except ParseError (UpdateFileChunk × Nat)
  | [], chunk, parsedLines => .ok (chunk, parsedLines)
  | line :: rest, chunk, parsedLines =>
      if line = eofMarker then
        if parsedLines = 0 then .error (noLinesError (lineNumber + 1))
        else .ok ({ chunk with isEndOfFile := true }, parsedLines + 1)
      else
        match line with
        | [] =>
            parseChunkLines lineNumber rest
              { chunk with oldLines := chunk.oldLines ++ [[]], newLines := chunk.newLines ++ [[]] }
              (parsedLines + 1)
        | ' ' :: content =>
            parseChunkLines lineNumber rest
              { chunk with
                oldLines := chunk.oldLines ++ [content]
                newLines := chunk.newLines ++ [content] }
              (parsedLines + 1)
        | '+' :: content =>
            parseChunkLines lineNumber rest
              { chunk with newLines := chunk.newLines ++ [content] } (parsedLines + 1)
        | '-' :: content =>
            parseChunkLines lineNumber rest
              { chunk with oldLines := chunk.oldLines ++ [content] } (parsedLines + 1)
        | _ =>
            -- After at least one diff line this is the start of the next hunk.
            if parsedLines = 0 then .error (unexpectedLineError line (lineNumber + 1))
            else .ok (chunk, parsedLines)

/-- Parse one chunk from the start of `lines`, with the number of lines consumed. -/
def parseUpdateFileChunk (lines : List Text) (lineNumber : Nat) (allowMissingContext : Bool) :
    Except ParseError (UpdateFileChunk × Nat) :=
  match lines with
  | [] => .error (noLinesError lineNumber)
  | first :: rest => do
      let (changeContext, startIndex) ←
        if first = emptyChangeContextMarker then .ok (none, 1)
        else
          match first.stripPrefix changeContextMarker with
          | some context => .ok (some context, 1)
          | none =>
              if allowMissingContext then .ok (none, 0)
              else .error (missingContextError first lineNumber)
      if lines.length ≤ startIndex then .error (noLinesError (lineNumber + 1))
      else
        let (chunk, parsedLines) ←
          parseChunkLines lineNumber (if startIndex = 0 then lines else rest)
            { changeContext, oldLines := [], newLines := [], isEndOfFile := false } 0
        .ok (chunk, parsedLines + startIndex)

/-- The loop over the chunks of an updated file.  `skip` lines were consumed by the last chunk and
are passed over; the result counts all the lines consumed. -/
def parseChunks : List Text → Nat → Nat → List UpdateFileChunk →
    Except ParseError (List UpdateFileChunk × Nat)
  | [], _, _, chunks => .ok (chunks, 0)
  | _ :: rest, skip + 1, lineNumber, chunks => do
      let (chunks, parsedLines) ← parseChunks rest skip (lineNumber + 1) chunks
      .ok (chunks, parsedLines + 1)
  | line :: rest, 0, lineNumber, chunks =>
      if line.trim = [] then do
        let (chunks, parsedLines) ← parseChunks rest 0 (lineNumber + 1) chunks
        .ok (chunks, parsedLines + 1)
      else if line.startsWith headerStart = true then .ok (chunks, 0)
      else do
        let (chunk, chunkLines) ← parseUpdateFileChunk (line :: rest) lineNumber chunks.isEmpty
        let (chunks, parsedLines) ←
          parseChunks rest (chunkLines - 1) (lineNumber + 1) (chunks ++ [chunk])
        .ok (chunks, parsedLines + 1)

/-! ## Hunks -/

/-- The loop over the `+` lines of an added file: its contents and their number. -/
def parseAddLines : List Text → Text × Nat
  | ('+' :: content) :: rest =>
      let (contents, parsedLines) := parseAddLines rest
      (content ++ '\n' :: contents, parsedLines + 1)
  | _ => ([], 0)

def emptyUpdateError (path : Text) (lineNumber : Nat) : ParseError :=
  .invalidHunkError
    ("Update file hunk for path '".toList ++ path ++ "' is empty".toList) lineNumber

def invalidHeaderError (firstLine : Text) (lineNumber : Nat) : ParseError :=
  .invalidHunkError
    ("'".toList ++ firstLine ++ "' is not a valid hunk header. Valid hunk headers: ".toList ++
      "'*** Add File: \x7bpath\x7d', '*** Delete File: \x7bpath\x7d', ".toList ++
      "'*** Update File: \x7bpath\x7d'".toList)
    lineNumber

/-- Parse one hunk from the start of a nonempty list of lines, with the number of lines consumed. -/
def parseOneHunk (first : Text) (rest : List Text) (lineNumber : Nat) :
    Except ParseError (Hunk × Nat) :=
  let firstLine := first.trim
  match firstLine.stripPrefix addFileMarker with
  | some path =>
      let (contents, parsedLines) := parseAddLines rest
      .ok (.addFile path contents, parsedLines + 1)
  | none =>
      match firstLine.stripPrefix deleteFileMarker with
      | some path => .ok (.deleteFile path, 1)
      | none =>
          match firstLine.stripPrefix updateFileMarker with
          | some path => do
              let movePath := rest.head?.bind (·.stripPrefix moveToMarker)
              let parsedLines := if movePath.isSome then 2 else 1
              let remainingLines := if movePath.isSome then rest.tail else rest
              let (chunks, chunkLines) ←
                parseChunks remainingLines 0 (lineNumber + parsedLines) []
              if chunks.isEmpty then .error (emptyUpdateError path lineNumber)
              else .ok (.updateFile path movePath chunks, parsedLines + chunkLines)
          | none => .error (invalidHeaderError firstLine lineNumber)

/-- The loop over the hunks of a patch; `skip` lines were consumed by the last hunk. -/
def parseHunks : List Text → Nat → Nat → Except ParseError (List Hunk)
  | [], _, _ => .ok []
  | _ :: rest, skip + 1, lineNumber => parseHunks rest skip (lineNumber + 1)
  | line :: rest, 0, lineNumber => do
      let (hunk, hunkLines) ← parseOneHunk line rest lineNumber
      let hunks ← parseHunks rest (hunkLines - 1) (lineNumber + 1)
      .ok (hunk :: hunks)

/-- The lines of a patch text with the heredoc wrapper removed, when the boundaries are right. -/
def patchLines (patch : Text) (mode : ParseMode) : Except ParseError (List Text) :=
  let lines := patch.trim.lines
  match checkPatchBoundariesStrict lines with
  | .ok () => .ok lines
  | .error error =>
      match mode with
      | .strict => .error error
      | .lenient => checkPatchBoundariesLenient lines error

/-- Parse a patch text in the given mode. -/
def parsePatchText (patch : Text) (mode : ParseMode) : Except ParseError ApplyPatchArgs := do
  let lines ← patchLines patch mode
  let hunks ← parseHunks lines.tail.dropLast 0 2
  .ok { patch := Text.join ['\n'] lines, hunks, workdir := none }

/-- Parse a patch text. -/
def parsePatch (patch : Text) : Except ParseError ApplyPatchArgs :=
  parsePatchText patch (if parseInStrictMode then .strict else .lenient)

end CodexPilot.ApplyPatch
