import CodexPilot.ApplyPatch.Apply
import Mathlib.Data.List.AList

/-!
# Verified invocations

An argument vector is recognized as an invocation of `apply_patch`, and its hunks are checked
against the files as they are.  Every hunk is checked on the untouched files; the resulting changes
are kept by source path, so a later hunk replaces the change of an earlier one.

The grammar that matches a shell script and the line diff are the host's.
-/

namespace CodexPilot.ApplyPatch

open RustStd

/-! ## Shell forms -/

/-- Shells in which a heredoc invocation is recognized. -/
inductive ApplyPatchShell where
  | unix
  | powerShell
  | cmd
  deriving DecidableEq

/-- Why a script is no heredoc invocation. -/
inductive ExtractHeredocError where
  | commandDidNotStartWithApplyPatch
  | failedToLoadBashGrammar (error : Text)
  | heredocNotUtf8 (error : Text)
  | failedToParsePatchIntoAst
  | failedToFindHeredocBody

/-- The names of the captures that the query of the script reads. -/
inductive CaptureName where
  | heredoc
  | cdPath
  | cdRawString
  | other
  deriving DecidableEq

/-- One captured node of a script with its text, or the error of decoding it. -/
structure Capture where
  name : CaptureName
  text : Except Text Text

/-- The matches of the query in a script, or the error of loading the grammar or of parsing. -/
abbrev BashQuery := Text → Except ExtractHeredocError (List (List Capture))

/-- The unified diff of two texts with the given number of context lines. -/
abbrev UnifiedDiff := Text → Text → ℕ → Text

/-- The commands that take a patch as their only argument. -/
def applyPatchCommands : List Text := ["apply_patch".toList, "applypatch".toList]

/-- `str::to_ascii_lowercase`. -/
def toAsciiLowercase (text : Text) : Text := text.map Char.toLower

/-- The name of a shell without its directory and extension. -/
def classifyShellName (shell : Text) : Option Text :=
  (Path.fileStem (PathBuf.components shell)).map toAsciiLowercase

def unixShells : List Text := ["bash".toList, "zsh".toList, "sh".toList]

def powerShells : List Text := ["pwsh".toList, "powershell".toList]

/-- The shell that an executable and its flag stand for. -/
def classifyShell (shell flag : Text) : Option ApplyPatchShell := do
  let name ← classifyShellName shell
  if unixShells.contains name && (flag == "-lc".toList || flag == "-c".toList) then some .unix
  else if powerShells.contains name && toAsciiLowercase flag == "-command".toList then
    some .powerShell
  else if name == "cmd".toList && toAsciiLowercase flag == "/c".toList then some .cmd
  else none

/-- Whether a flag in front of the script flag is passed over. -/
def canSkipFlag (shell flag : Text) : Bool :=
  match classifyShellName shell with
  | some name => powerShells.contains name && toAsciiLowercase flag == "-noprofile".toList
  | none => false

/-- The script that an argument vector hands to a shell. -/
def parseShellScript (argv : List Text) : Option (ApplyPatchShell × Text) :=
  match argv with
  | [shell, flag, script] => (classifyShell shell flag).map fun kind => (kind, script)
  | [shell, skipFlag, flag, script] =>
      if canSkipFlag shell skipFlag then
        (classifyShell shell flag).map fun kind => (kind, script)
      else none
  | _ => none

/-- A raw string without its quotes. -/
def unquote (raw : Text) : Text :=
  match raw with
  | '\'' :: rest => if rest.getLast? = some '\'' then rest.dropLast else raw
  | _ => raw

/-- The heredoc and the `cd` directory read so far, with one more capture. -/
def readCapture (found : Option Text × Option Text) (capture : Capture) :
    Except ExtractHeredocError (Option Text × Option Text) :=
  match capture.name, capture.text with
  | .other, _ => .ok found
  | _, .error error => .error (.heredocNotUtf8 error)
  | .heredoc, .ok text => .ok (some (text.rdropWhile (· == '\n')), found.2)
  | .cdPath, .ok text => .ok (found.1, some text)
  | .cdRawString, .ok text => .ok (found.1, some (unquote text))

/-- The first match with a heredoc. -/
def firstHeredoc : List (List Capture) → Except ExtractHeredocError (Text × Option Text)
  | [] => .error .commandDidNotStartWithApplyPatch
  | captures :: queryMatches => do
      let (heredocText, cdPath) ← captures.foldlM readCapture (none, none)
      match heredocText with
      | some heredoc => .ok (heredoc, cdPath)
      | none => firstHeredoc queryMatches

/-- The heredoc of a script that only invokes `apply_patch`, with the directory it changes to. -/
def extractApplyPatchFromBash (query : BashQuery) (script : Text) :
    Except ExtractHeredocError (Text × Option Text) := do
  let queryMatches ← query script
  firstHeredoc queryMatches

/-- Every shell is read with the same grammar. -/
def extractApplyPatchFromShell (query : BashQuery) (shell : ApplyPatchShell) (script : Text) :
    Except ExtractHeredocError (Text × Option Text) :=
  match shell with
  | .unix | .powerShell | .cmd => extractApplyPatchFromBash query script

/-- What an argument vector is. -/
inductive MaybeApplyPatch where
  | body (args : ApplyPatchArgs)
  | shellParseError (error : ExtractHeredocError)
  | patchParseError (error : ParseError)
  | notApplyPatch

/-- The heredoc form of an invocation. -/
def maybeParseShellForm (query : BashQuery) (argv : List Text) : MaybeApplyPatch :=
  match parseShellScript argv with
  | none => .notApplyPatch
  | some (shell, script) =>
      match extractApplyPatchFromShell query shell script with
      | .ok (body, workdir) =>
          match parsePatch body with
          | .ok source => .body { source with workdir }
          | .error error => .patchParseError error
      | .error .commandDidNotStartWithApplyPatch => .notApplyPatch
      | .error error => .shellParseError error

/-- Recognize an invocation of `apply_patch` and parse its patch. -/
def maybeParseApplyPatch (query : BashQuery) (argv : List Text) : MaybeApplyPatch :=
  match argv with
  | [command, body] =>
      if applyPatchCommands.contains command then
        match parsePatch body with
        | .ok source => .body source
        | .error error => .patchParseError error
      else maybeParseShellForm query argv
  | argv => maybeParseShellForm query argv

/-! ## Verification -/

/-- A change to one file. -/
inductive ApplyPatchFileChange where
  | add (content : Text)
  | delete (content : Text)
  | update (unifiedDiff : Text) (movePath : Option PathBuf) (newContent : Text)

/-- The changes of a patch by source path; paths are equal when their components are. -/
abbrev Changes := AList fun _ : Path => ApplyPatchFileChange

/-- A verified patch. -/
structure ApplyPatchAction where
  /-- The changes that applying the patch would make. -/
  changes : Changes
  /-- The patch without a heredoc wrapper. -/
  patch : Text
  /-- The directory that the paths of the patch are relative to. -/
  cwd : PathBuf

/-- What the verification of an argument vector finds. -/
inductive MaybeApplyPatchVerified where
  | body (action : ApplyPatchAction)
  | shellParseError (error : ExtractHeredocError)
  | correctnessError (error : ApplyPatchError)
  | notApplyPatch

section Verification

variable (query : BashQuery) (unifiedDiff : UnifiedDiff) (files : Files)

/-- The diff of an update and the contents it results in. -/
def unifiedDiffFromChunks (path : Path) (name : PathBuf) (chunks : List UpdateFileChunk) :
    Except ApplyPatchError (Text × Text) := do
  let applied ← deriveNewContentsFromChunks files path name chunks
  .ok (unifiedDiff applied.originalContents applied.newContents 1, applied.newContents)

/-- The change that a hunk makes to the files as they are. -/
def verifyHunk (cwd : PathBuf) : Hunk → Except ApplyPatchError ApplyPatchFileChange
  | .addFile _ contents => .ok (.add contents)
  | .deleteFile path =>
      match readToString files (resolve cwd path) with
      | .ok content => .ok (.delete content)
      | .error source =>
          .error (.ioError ⟨"Failed to read ".toList ++ PathBuf.join cwd path, source⟩)
  | .updateFile path movePath chunks => do
      let (diff, contents) ←
        unifiedDiffFromChunks unifiedDiff files (resolve cwd path) (PathBuf.join cwd path) chunks
      .ok (.update diff (movePath.map (PathBuf.join cwd)) contents)

/-- The loop over the hunks: each one is checked on the same files. -/
def verifyHunks (cwd : PathBuf) : List Hunk → Changes → Except ApplyPatchError Changes
  | [], changes => .ok changes
  | hunk :: hunks, changes => do
      let change ← verifyHunk unifiedDiff files cwd hunk
      verifyHunks cwd hunks (changes.insert (resolve cwd hunk.path) change)

/-- The directory that a patch is applied in. -/
def effectiveCwd (cwd : PathBuf) (workdir : Option Text) : PathBuf :=
  match workdir with
  | some dir => if PathBuf.isAbsolute dir then dir else PathBuf.join cwd dir
  | none => cwd

/-- Whether a patch stands where a command is expected. -/
def isImplicitInvocation (argv : List Text) : Bool :=
  (match argv with
    | [body] => (parsePatch body).isOk
    | _ => false) ||
  (match parseShellScript argv with
    | some (_, script) => (parsePatch script).isOk
    | none => false)

/-- Recognize an invocation of `apply_patch` and check its hunks. -/
def maybeParseApplyPatchVerified (argv : List Text) (cwd : PathBuf) : MaybeApplyPatchVerified :=
  if isImplicitInvocation argv then .correctnessError .implicitInvocation
  else
    match maybeParseApplyPatch query argv with
    | .body args =>
        let effective := effectiveCwd cwd args.workdir
        match verifyHunks unifiedDiff files effective args.hunks ∅ with
        | .ok changes => .body { changes, patch := args.patch, cwd := effective }
        | .error error => .correctnessError error
    | .shellParseError error => .shellParseError error
    | .patchParseError error => .correctnessError (.parseError error)
    | .notApplyPatch => .notApplyPatch

end Verification

/-! ## What verification establishes -/

section Verified

variable {query : BashQuery} {unifiedDiff : UnifiedDiff} {files : Files} {argv : List Text}
  {cwd : PathBuf} {args : ApplyPatchArgs} {action : ApplyPatchAction}

/-- The hunks of an invocation come from one patch text. -/
theorem exists_parsePatch (parsed : maybeParseApplyPatch query argv = .body args) :
    ∃ patch source, parsePatch patch = .ok source ∧ source.patch = args.patch ∧
      source.hunks = args.hunks := by
  have shellForm (isBody : maybeParseShellForm query argv = .body args) :
      ∃ patch source, parsePatch patch = .ok source ∧ source.patch = args.patch ∧
        source.hunks = args.hunks := by
    unfold maybeParseShellForm at isBody
    split at isBody
    · cases isBody
    · split at isBody
      · split at isBody
        · rename_i parsedPatch
          cases isBody
          exact ⟨_, _, parsedPatch, rfl, rfl⟩
        · cases isBody
      · cases isBody
      · cases isBody
  unfold maybeParseApplyPatch at parsed
  split at parsed
  · split at parsed
    · split at parsed
      · rename_i parsedPatch
        cases parsed
        exact ⟨_, _, parsedPatch, rfl, rfl⟩
      · cases parsed
    · exact shellForm parsed
  · exact shellForm parsed

/-- An action comes from an invocation whose hunks were all checked. -/
theorem exists_args_of_verified
    (verified : maybeParseApplyPatchVerified query unifiedDiff files argv cwd = .body action) :
    ∃ args, maybeParseApplyPatch query argv = .body args ∧ action.patch = args.patch ∧
      verifyHunks unifiedDiff files action.cwd args.hunks ∅ = .ok action.changes := by
  unfold maybeParseApplyPatchVerified at verified
  split at verified
  · cases verified
  · split at verified
    · rename_i args parsed
      dsimp only at verified
      split at verified
      · rename_i changes checked
        cases verified
        exact ⟨args, parsed, rfl, checked⟩
      · cases verified
    all_goals cases verified

theorem verifyHunk_deleteFile {path : PathBuf} {change : ApplyPatchFileChange}
    (verified : verifyHunk unifiedDiff files cwd (.deleteFile path) = .ok change) :
    ∃ content, files (resolve cwd path) = some content ∧ change = .delete content := by
  cases present : files (resolve cwd path) with
  | none => simp [verifyHunk, readToString, present] at verified
  | some content =>
      simp only [verifyHunk, readToString, present, Except.ok.injEq] at verified
      exact ⟨content, rfl, verified.symm⟩

theorem verifyHunk_updateFile {path : PathBuf} {movePath : Option PathBuf}
    {chunks : List UpdateFileChunk} {change : ApplyPatchFileChange}
    (verified : verifyHunk unifiedDiff files cwd (.updateFile path movePath chunks) = .ok change) :
    ∃ original contents, files (resolve cwd path) = some original ∧
      patchContents original (PathBuf.join cwd path) chunks = .ok contents ∧
      change = .update (unifiedDiff original contents 1) (movePath.map (PathBuf.join cwd))
        contents := by
  cases present : files (resolve cwd path) with
  | none =>
      simp [verifyHunk, unifiedDiffFromChunks, deriveNewContentsFromChunks, readToString, present,
        bind, Except.bind] at verified
  | some original =>
      cases patched : patchContents original (PathBuf.join cwd path) chunks with
      | error error =>
          simp [verifyHunk, unifiedDiffFromChunks, deriveNewContentsFromChunks, readToString,
            present, patched, bind, Except.bind] at verified
      | ok contents =>
          simp only [verifyHunk, unifiedDiffFromChunks, deriveNewContentsFromChunks, readToString,
            present, patched, bind, Except.bind, Except.ok.injEq] at verified
          exact ⟨original, contents, rfl, patched, verified.symm⟩

/-- The changes of checked hunks, by their source paths. -/
def keyed (cwd : PathBuf) (checked : List (Hunk × ApplyPatchFileChange)) :
    List (Path × Option ApplyPatchFileChange) :=
  checked.map fun entry => (resolve cwd entry.1.path, some entry.2)

theorem map_fst_keyed (cwd : PathBuf) (checked : List (Hunk × ApplyPatchFileChange)) :
    (keyed cwd checked).map Prod.fst = (checked.map Prod.fst).map fun hunk =>
      resolve cwd hunk.path := by
  simp [keyed]

/-- The changes are looked up as if those of the hunks had been written one after the other. -/
theorem exists_checked_of_verifyHunks {hunks : List Hunk} {changes result : Changes}
    (verified : verifyHunks unifiedDiff files cwd hunks changes = .ok result) :
    ∃ checked : List (Hunk × ApplyPatchFileChange), checked.map Prod.fst = hunks ∧
      (∀ entry ∈ checked, verifyHunk unifiedDiff files cwd entry.1 = .ok entry.2) ∧
      ∀ key, result.lookup key =
        Journal.replay (fun key => changes.lookup key) (keyed cwd checked) key := by
  induction hunks generalizing changes with
  | nil =>
      simp only [verifyHunks, Except.ok.injEq] at verified
      subst verified
      exact ⟨[], rfl, by simp, fun _ => rfl⟩
  | cons hunk hunks ih =>
      cases step : verifyHunk unifiedDiff files cwd hunk with
      | error error => simp [verifyHunks, step, bind, Except.bind] at verified
      | ok change =>
          simp only [verifyHunks, step, bind, Except.bind] at verified
          obtain ⟨checked, rfl, each, looked⟩ := ih verified
          refine ⟨(hunk, change) :: checked, rfl, ?_, ?_⟩
          · intro entry member
            rcases List.mem_cons.mp member with rfl | later
            · exact step
            · exact each entry later
          · intro key
            rw [looked]
            have inserted : (fun key =>
              (changes.insert (resolve cwd hunk.path) change).lookup key) =
                Function.update (fun key => changes.lookup key) (resolve cwd hunk.path)
                  (some change) := by
              funext other
              by_cases same : other = resolve cwd hunk.path
              · rw [same, AList.lookup_insert, Function.update_self]
              · rw [AList.lookup_insert_ne same, Function.update_of_ne same]
            rw [inserted]
            rfl

end Verified

/-! ## A small host -/

/-- A host without a shell grammar. -/
def noQuery : BashQuery := fun _ => .error .failedToParsePatchIntoAst

/-- A diff that shows nothing. -/
def noDiff : UnifiedDiff := fun _ _ _ => []

/-- The working directory `/w` with the file `a`. -/
def smallFiles : Files := fun path =>
  if path = [.rootDir, .normal ['w'], .normal ['a']] then some ['x', '\n'] else none

end CodexPilot.ApplyPatch
